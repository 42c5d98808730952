import WitnessReplication.Proofs.Client.Evidence

/-!
# What a client does

Whatever a client issues and whatever backed messages it handles, its pending commands are among
the issued ones and it completes only what is backed.
-/

namespace WitnessReplication.Client

open Quorum

/-- A client's commands are issued and what it has counted for them is backed. -/
structure Sound (config : Config) (log : Log) (issued : List Request) (bound : Slot)
    (c : Client) : Prop where
  config_eq : c.config = config
  seq_lt : ∀ q ∈ issued, q.id.client = c.id → q.id.seq < c.nextSeq
  pending_issued : ∀ id (p : Pending), c.pending[id]? = some p →
    ∃ command, ⟨id, command, false⟩ ∈ issued
  pending_backed : ∀ id (p : Pending), c.pending[id]? = some p → p.Backed config log bound id
  weak_issued : ∀ id ∈ c.weak, ∃ command, ⟨id, command, true⟩ ∈ issued

/-- What a message makes client `id` do: it asks the leader at most, and completes what is
backed. -/
structure Reaction.Sound (config : Config) (log : Log) (issued : List Request) (bound : Slot)
    (id : ClientId) (reaction : Reaction) : Prop where
  client : reaction.client.Sound config log issued bound
  id_eq : reaction.client.id = id
  sent : ∀ s ∈ reaction.sent, ∃ body, s = .toReplica config.leader (.sync body)
  completion : ∀ done, reaction.completion = some done → done.Backed config log issued bound

variable {config : Config} {log log' : Log} {issued : List Request} {bound bound' : Slot}
variable {id : CommandId} {p : Pending} {c : Client}

/-! ### Issuing a command -/

theorem Sound.mono (h : c.Sound config log issued bound) (hlog : log <+: log')
    (hb : bound ≤ bound') : c.Sound config log' issued bound' where
  config_eq := h.config_eq
  seq_lt := h.seq_lt
  pending_issued := h.pending_issued
  pending_backed id p hp := (h.pending_backed id p hp).mono hlog hb
  weak_issued := h.weak_issued

/-- A command of another client does not matter. -/
theorem Sound.issue_other (h : c.Sound config log issued bound) {q : Request}
    (hother : q.id.client ≠ c.id) : c.Sound config log (issued ++ [q]) bound where
  config_eq := h.config_eq
  seq_lt q' hq' hclient := by
    rcases List.mem_append.1 hq' with hq' | hq'
    · exact h.seq_lt q' hq' hclient
    · obtain rfl := List.mem_singleton.1 hq'
      exact absurd hclient hother
  pending_issued id p hp := by
    obtain ⟨command, hmem⟩ := h.pending_issued id p hp
    exact ⟨command, List.mem_append_left _ hmem⟩
  pending_backed := h.pending_backed
  weak_issued id hid := by
    obtain ⟨command, hmem⟩ := h.weak_issued id hid
    exact ⟨command, List.mem_append_left _ hmem⟩

/-- The client's next position is new, and no other command is at it. -/
theorem Sound.seq_lt_issue (h : c.Sound config log issued bound) {q : Request}
    (hq : q.id = ⟨c.id, c.nextSeq⟩) : ∀ q' ∈ issued ++ [q], q'.id.client = c.id →
      q'.id.seq < c.nextSeq + 1 := by
  intro q' hq' hclient
  rcases List.mem_append.1 hq' with hq' | hq'
  · exact Nat.lt_succ_of_lt (h.seq_lt q' hq' hclient)
  · obtain rfl := List.mem_singleton.1 hq'
    rw [hq]
    exact Nat.lt_succ_self _

/-- A pending command without votes is backed. -/
theorem Pending.backed_new (config : Config) (log : Log) (bound : Slot) (id : CommandId) :
    Pending.Backed config log bound id
      ⟨.new .threeQuarters config.replicas config.leader true,
        .new .majority config.replicas config.leader true, false⟩ where
  fast_leader := rfl
  fast_vote vote hvote := by simp [Certificate.new, Certificate.leaderVote] at hvote
  slow_leader := rfl
  slow_required := rfl
  slow_vote vote hvote := by simp [Certificate.new, Certificate.leaderVote] at hvote

/-- A client that issues a strong command sends it to every replica. -/
theorem Sound.propose (h : c.Sound config log issued bound) (command : Command) :
    (c.propose command).1.Sound config log
      (issued ++ [⟨(c.propose command).2.1, command, false⟩]) bound where
  config_eq := h.config_eq
  seq_lt := h.seq_lt_issue rfl
  pending_issued id p hp := by
    simp only [Client.propose, Std.ExtTreeMap.getElem?_insert, Std.compare_eq_iff_eq] at hp ⊢
    split at hp
    · rename_i heq
      exact ⟨command, by simp [heq]⟩
    · obtain ⟨command', hmem⟩ := h.pending_issued id p hp
      exact ⟨command', List.mem_append_left _ hmem⟩
  pending_backed id p hp := by
    simp only [Client.propose, Std.ExtTreeMap.getElem?_insert, Std.compare_eq_iff_eq] at hp
    split at hp
    · obtain rfl := Option.some.inj hp
      rw [h.config_eq]
      exact Pending.backed_new config log bound id
    · exact h.pending_backed id p hp
  weak_issued id hid := by
    obtain ⟨command', hmem⟩ := h.weak_issued id hid
    exact ⟨command', List.mem_append_left _ hmem⟩

theorem Sound.proposeWeak (h : c.Sound config log issued bound) (command : Command) :
    (c.proposeWeak command).1.Sound config log
      (issued ++ [⟨(c.proposeWeak command).2.1, command, true⟩]) bound where
  config_eq := h.config_eq
  seq_lt := h.seq_lt_issue rfl
  pending_issued id p hp := by
    obtain ⟨command', hmem⟩ := h.pending_issued id p hp
    exact ⟨command', List.mem_append_left _ hmem⟩
  pending_backed := h.pending_backed
  weak_issued id hid := by
    simp only [Client.proposeWeak, Std.ExtTreeSet.mem_insert, Std.compare_eq_iff_eq] at hid ⊢
    rcases hid with rfl | hid
    · exact ⟨command, by simp⟩
    · obtain ⟨command', hmem⟩ := h.weak_issued id hid
      exact ⟨command', List.mem_append_left _ hmem⟩

/-! ### Handling a message -/

theorem Sound.react (h : c.Sound config log issued bound) :
    Reaction.Sound config log issued bound c.id { client := c } where
  client := h
  id_eq := rfl
  sent s hs := by simp at hs
  completion done hdone := by simp at hdone

/-- Putting back a pending command that is still backed leaves a client sound. -/
theorem Sound.put (h : c.Sound config log issued bound)
    (hissued : ∃ command, ⟨id, command, false⟩ ∈ issued) (hp : p.Backed config log bound id)
    (stats : Stats) :
    Sound config log issued bound { c with pending := c.pending.insert id p, stats } where
  config_eq := h.config_eq
  seq_lt := h.seq_lt
  pending_issued id' p' hp' := by
    rw [Std.ExtTreeMap.getElem?_insert] at hp'
    split at hp'
    · rename_i heq
      exact Std.LawfulEqOrd.eq_of_compare heq ▸ hissued
    · exact h.pending_issued id' p' hp'
  pending_backed id' p' hp' := by
    rw [Std.ExtTreeMap.getElem?_insert] at hp'
    split at hp'
    · rename_i heq
      obtain rfl := Option.some.inj hp'
      exact Std.LawfulEqOrd.eq_of_compare heq ▸ hp
    · exact h.pending_backed id' p' hp'
  weak_issued := h.weak_issued

theorem Sound.escalate (h : c.Sound config log issued bound)
    (hissued : ∃ command, ⟨id, command, false⟩ ∈ issued) (hp : p.Backed config log bound id) :
    (c.escalate id p).Sound config log issued bound c.id := by
  unfold Client.escalate
  split
  · exact ⟨h.put hissued hp c.stats, rfl, by simp, by simp⟩
  · have hp' : Pending.Backed config log bound id { p with escalated := true } :=
      ⟨hp.fast_leader, hp.fast_vote, hp.slow_leader, hp.slow_required, hp.slow_vote⟩
    refine ⟨h.put hissued hp' _, rfl, ?_, by simp⟩
    intro s hs
    obtain rfl := List.mem_singleton.1 hs
    exact ⟨⟨id⟩, by rw [h.config_eq]⟩

/-- Counting a backed message for a strong command completes it with what is backed, if at all. -/
theorem Sound.update (h : c.Sound config log issued bound) (id : CommandId)
    (count : Pending → Pending × Decision)
    (hcount : ∀ p : Pending, p.Backed config log bound id →
      (count p).1.Backed config log bound id ∧ (count p).2.Backed log bound id) :
    (c.update id count).Sound config log issued bound c.id := by
  unfold Client.update
  split
  · exact h.react
  · rename_i p hp
    have hissued := h.pending_issued id p hp
    obtain ⟨hcounted, hdecision⟩ := hcount p (h.pending_backed id p hp)
    dsimp only
    split
    · exact ⟨h.put hissued hcounted c.stats, rfl, by simp, by simp⟩
    · exact h.escalate hissued hcounted
    · rename_i value path hdone
      rw [hdone] at hdecision
      have hpending : ∀ (id' : CommandId) p', (c.pending.erase id)[id']? = some p' →
          c.pending[id']? = some p' := by
        intro id' p' hp'
        rw [Std.ExtTreeMap.getElem?_erase] at hp'
        split at hp'
        · simp at hp'
        · exact hp'
      refine ⟨⟨h.config_eq, h.seq_lt, fun id' p' hp' => h.pending_issued id' p' (hpending _ _ hp'),
        fun id' p' hp' => h.pending_backed id' p' (hpending _ _ hp'), h.weak_issued⟩, rfl, by simp,
        ?_⟩
      intro done hdone'
      obtain rfl := Option.some.inj hdone'
      cases path with
      | fast => exact ⟨hissued, hdecision⟩
      | slow => exact ⟨hissued, hdecision⟩
      | weak => exact hdecision.elim

/-- A reply completes a weak command with what is backed, if at all. -/
theorem Sound.completeWeak (h : c.Sound config log issued bound) {m : WeakReply}
    (hm : config.variant = .leaderOnly → log.Results bound m.id m.value) :
    (c.completeWeak m).Sound config log issued bound c.id := by
  unfold Client.completeWeak
  split
  · rename_i hmem
    refine ⟨⟨h.config_eq, h.seq_lt, h.pending_issued, h.pending_backed, ?_⟩, rfl, by simp, ?_⟩
    · intro id hid
      exact h.weak_issued id (Std.ExtTreeSet.mem_of_mem_erase hid)
    · intro done hdone
      obtain rfl := Option.some.inj hdone
      exact ⟨h.weak_issued m.id (Std.ExtTreeSet.contains_iff_mem.1 hmem), hm⟩
  · exact h.react

/-- Whatever backed message a client handles, it completes only what is backed. -/
theorem Sound.handle (h : c.Sound config log issued bound) {m : ClientMessage}
    (hm : m.Backed config log bound) :
    (c.handle m).Sound config log issued bound c.id := by
  cases m with
  | reply m => exact h.update m.id _ fun p hp => hp.onReply hm.2
  | syncReply m => exact h.update m.id _ fun p hp => hp.onSyncReply hm.2
  | recordAck m =>
      unfold Client.handle
      dsimp only
      split
      · exact h.react
      · exact h.update m.id _ fun p hp => hp.onRecordAck hm
  | weakReply m => exact h.completeWeak hm
  | causalReply m =>
      unfold Client.handle
      dsimp only
      split
      · exact h.completeWeak hm
      · exact h.react

end WitnessReplication.Client
