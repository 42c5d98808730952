import WitnessReplication.Client
import WitnessReplication.Proofs.Backing
import WitnessReplication.Proofs.Certificate

/-!
# What completions rest on

A client completes a strong command with the leader's vote in a certificate. Where that vote was
a backed message, the completion is backed: on the fast path by the leader's clear answer when it
gave the command its slot, on the slow path by the result that the log gives. A weak command is
backed by its reply.
-/

namespace WitnessReplication.Client

open Quorum

/-- The certificates of a pending command hold of the leader only what is backed. -/
structure Pending.Backed (config : Config) (log : Log) (bound : Slot) (id : CommandId)
    (p : Pending) : Prop where
  fast_leader : p.fast.leader = config.leader
  fast_vote : ∀ vote, p.fast.leaderVote = some vote →
    ∃ value, vote.value = some value ∧ log.Answers id value vote.ok
  slow_leader : p.slow.leader = config.leader
  slow_required : p.slow.leaderRequired = true
  slow_vote : ∀ vote, p.slow.leaderVote = some vote →
    ∃ value, vote.value = some value ∧ log.Results bound id value

/-- A decision to complete a strong command is backed. -/
def Decision.Backed (log : Log) (bound : Slot) (id : CommandId) : Decision → Prop
  | .wait => True
  | .escalate => True
  | .complete value .fast => log.Answers id value .clear
  | .complete value .slow => log.Results bound id value
  | .complete _ .weak => False

/-- A completion is of an issued command and its value is backed. -/
def Completion.Backed (config : Config) (log : Log) (issued : List Request) (bound : Slot)
    (done : Completion) : Prop :=
  (∃ command, ⟨done.id, command, decide (done.path = .weak)⟩ ∈ issued) ∧
    match done.path with
    | .fast => log.Answers done.id done.value .clear
    | .slow => log.Results bound done.id done.value
    | .weak => config.variant = .leaderOnly → log.Results bound done.id done.value

variable {config : Config} {log log' : Log} {issued issued' : List Request} {bound bound' : Slot}
variable {id : CommandId} {p : Pending}

theorem Pending.Backed.mono (h : p.Backed config log bound id) (hlog : log <+: log')
    (hb : bound ≤ bound') : p.Backed config log' bound' id where
  fast_leader := h.fast_leader
  fast_vote vote hvote := by
    obtain ⟨value, hvalue, hanswer⟩ := h.fast_vote vote hvote
    exact ⟨value, hvalue, hanswer.mono hlog⟩
  slow_leader := h.slow_leader
  slow_required := h.slow_required
  slow_vote vote hvote := by
    obtain ⟨value, hvalue, hresult⟩ := h.slow_vote vote hvote
    exact ⟨value, hvalue, hresult.mono hlog hb⟩

theorem Completion.Backed.mono {done : Completion} (h : done.Backed config log issued bound)
    (hlog : log <+: log') (hissued : issued ⊆ issued') (hb : bound ≤ bound') :
    done.Backed config log' issued' bound' := by
  obtain ⟨⟨command, hmem⟩, hvalue⟩ := h
  refine ⟨⟨command, hissued hmem⟩, ?_⟩
  cases hpath : done.path with
  | fast =>
      simp only [hpath] at hvalue
      exact hvalue.mono hlog
  | slow =>
      simp only [hpath] at hvalue
      exact hvalue.mono hlog hb
  | weak =>
      simp only [hpath] at hvalue
      exact fun hv => (hvalue hv).mono hlog hb

/-! ### Counting votes -/

/-- A fast value is the leader's, and the leader was clear. -/
theorem fastValue_eq_some {q : Votes Vote} {value : Value} (h : fastValue q = some value) :
    ∃ vote, q.leader = some vote ∧ vote.ok = .clear ∧ vote.value = some value := by
  unfold fastValue at h
  split at h
  · simp at h
  · rename_i vote hleader
    split at h
    · simp at h
    · rename_i hclear
      exact ⟨vote, hleader, by simp_all, h⟩

/-- A completed fast certificate gives the leader's clear answer. -/
theorem answers_fastValue {fast : Certificate Vote} {q : Votes Vote} {value : Value}
    {sender : ReplicaId} {vote : Vote} (hvote : ∀ v, (fast.add sender vote).1.leaderVote = some v →
      ∃ value, v.value = some value ∧ log.Answers id value v.ok)
    (hq : (fast.add sender vote).2 = some q) (hvalue : fastValue q = some value) :
    log.Answers id value .clear := by
  obtain ⟨leaderVote, hleader, hclear, hval⟩ := fastValue_eq_some hvalue
  have hheld := (Certificate.leader_of_add hq).1
  obtain ⟨value', hvalue', hanswer⟩ := hvote leaderVote (hheld.symm.trans hleader)
  obtain rfl : value = value' := Option.some.inj (hval.symm.trans hvalue')
  rwa [hclear] at hanswer

/-- A completed slow certificate gives the leader's committed result. -/
theorem results_slowValue {slow : Certificate Vote} {q : Votes Vote}
    {sender : ReplicaId} {vote : Vote} (hrequired : slow.leaderRequired = true)
    (hvote : ∀ v, (slow.add sender vote).1.leaderVote = some v →
      ∃ value, v.value = some value ∧ log.Results bound id value)
    (hq : (slow.add sender vote).2 = some q) : log.Results bound id (slowValue q) := by
  obtain ⟨hheld, hsome⟩ := Certificate.leader_of_add hq
  obtain ⟨leaderVote, hleader⟩ := Option.isSome_iff_exists.1 (hsome hrequired)
  obtain ⟨value, hvalue, hresult⟩ := hvote leaderVote (hheld.symm.trans hleader)
  rw [slowValue, hleader, Option.bind_some, hvalue]
  exact hresult

/-- The leader's speculative result leaves a pending command backed, and what it decides. -/
theorem Pending.Backed.onReply {m : Reply} (h : p.Backed config log bound id)
    (hm : log.Answers id m.value m.ok) :
    (p.onReply m).1.Backed config log bound id ∧ (p.onReply m).2.Backed log bound id := by
  have hvote : ∀ v, (p.fast.add m.replica (.ofReply m)).1.leaderVote = some v →
      ∃ value, v.value = some value ∧ log.Answers id value v.ok := by
    intro v hv
    rcases Certificate.leaderVote_add hv with hv | ⟨-, rfl⟩
    · exact h.fast_vote v hv
    · exact ⟨m.value, rfl, hm⟩
  refine ⟨⟨by simpa [Pending.onReply] using h.fast_leader, hvote, h.slow_leader, h.slow_required,
    h.slow_vote⟩, ?_⟩
  unfold Pending.onReply
  dsimp only
  split
  · rename_i q hq
    split
    · rename_i value hvalue
      exact answers_fastValue hvote hq hvalue
    · trivial
  · split <;> trivial

/-- The leader's committed result leaves a pending command backed, and what it decides. -/
theorem Pending.Backed.onSyncReply {m : Reply} (h : p.Backed config log bound id)
    (hm : log.Results bound id m.value) :
    (p.onSyncReply m).1.Backed config log bound id ∧ (p.onSyncReply m).2.Backed log bound id := by
  have hvote : ∀ v, (p.slow.add m.replica (.ofReply m)).1.leaderVote = some v →
      ∃ value, v.value = some value ∧ log.Results bound id value := by
    intro v hv
    rcases Certificate.leaderVote_add hv with hv | ⟨-, rfl⟩
    · exact h.slow_vote v hv
    · exact ⟨m.value, rfl, hm⟩
  refine ⟨⟨h.fast_leader, h.fast_vote, by simpa [Pending.onSyncReply] using h.slow_leader,
    by simpa [Pending.onSyncReply] using h.slow_required, hvote⟩, ?_⟩
  unfold Pending.onSyncReply
  dsimp only
  split
  · rename_i q hq
    exact results_slowValue h.slow_required hvote hq
  · trivial

/-- A verdict of another replica adds no vote of the leader. -/
theorem Pending.Backed.onRecordAck {m : RecordAck} (h : p.Backed config log bound id)
    (hm : m.replica ≠ config.leader) :
    (p.onRecordAck m).1.Backed config log bound id ∧ (p.onRecordAck m).2.Backed log bound id := by
  have hfast : ∀ v, (p.fast.add m.replica (.ofRecordAck m)).1.leaderVote = some v →
      ∃ value, v.value = some value ∧ log.Answers id value v.ok := by
    intro v hv
    rcases Certificate.leaderVote_add hv with hv | ⟨hsender, -⟩
    · exact h.fast_vote v hv
    · exact absurd (hsender.trans h.fast_leader) hm
  have hslow : ∀ v, (p.slow.add m.replica (.ofRecordAck m)).1.leaderVote = some v →
      ∃ value, v.value = some value ∧ log.Results bound id value := by
    intro v hv
    rcases Certificate.leaderVote_add hv with hv | ⟨hsender, -⟩
    · exact h.slow_vote v hv
    · exact absurd (hsender.trans h.slow_leader) hm
  refine ⟨⟨by simpa [Pending.onRecordAck] using h.fast_leader, hfast,
    by simpa [Pending.onRecordAck] using h.slow_leader,
    by simpa [Pending.onRecordAck] using h.slow_required, hslow⟩, ?_⟩
  unfold Pending.onRecordAck
  dsimp only
  split
  · rename_i value hvalue
    obtain ⟨q, hq, hval⟩ := Option.map_eq_some_iff.1 hvalue
    exact answers_fastValue hfast hq hval
  · rename_i q hq _
    exact results_slowValue h.slow_required hslow hq
  · trivial
  · trivial

end WitnessReplication.Client
