import Mathlib.Data.List.Nodup
import Mathlib.Data.List.Perm.Basic
import WitnessReplication.Quorum.Certificate

/-!
# What a certificate holds

Counting a message keeps a certificate's leader and rule. The leader's vote in it, and in the
quorum that completes it, is a message that was counted with the leader as its sender.

A certificate that counts only senders of a kind (`Certificate.Counts`) is met only when that many
different ones have been counted (`Attained`), whatever was lost or came twice.
-/

namespace WitnessReplication.Quorum

/-- Enough different replicas are of a kind, the leader among them. -/
def Attained (size : Nat) (leader : ReplicaId) (voted : ReplicaId → Prop) : Prop :=
  ∃ ids : List ReplicaId, ids.Nodup ∧ size ≤ ids.length ∧ leader ∈ ids ∧ ∀ id ∈ ids, voted id

theorem Attained.mono {size : Nat} {leader : ReplicaId} {voted voted' : ReplicaId → Prop}
    (h : Attained size leader voted) (hvoted : ∀ id, voted id → voted' id) :
    Attained size leader voted' := by
  obtain ⟨ids, hnodup, hsize, hleader, hall⟩ := h
  exact ⟨ids, hnodup, hsize, hleader, fun id hid => hvoted id (hall id hid)⟩

namespace Certificate

variable {α : Type} {c : Certificate α} {sender : ReplicaId} {message vote : α} {q : Votes α}

/-- Counting a message changes only the votes and whether the certificate has completed. -/
theorem add_frame (c : Certificate α) (sender : ReplicaId) (message : α) :
    ∃ votes fired, (c.add sender message).1 = { c with votes, fired } := by
  unfold add
  split
  · exact ⟨_, _, rfl⟩
  · dsimp only
    split <;> exact ⟨_, _, rfl⟩

@[simp] theorem leader_add (c : Certificate α) (sender : ReplicaId) (message : α) :
    (c.add sender message).1.leader = c.leader := by
  obtain ⟨_, _, hadd⟩ := c.add_frame sender message
  rw [hadd]

@[simp] theorem leaderRequired_add (c : Certificate α) (sender : ReplicaId) (message : α) :
    (c.add sender message).1.leaderRequired = c.leaderRequired := by
  obtain ⟨_, _, hadd⟩ := c.add_frame sender message
  rw [hadd]

@[simp] theorem threshold_add (c : Certificate α) (sender : ReplicaId) (message : α) :
    (c.add sender message).1.threshold = c.threshold := by
  obtain ⟨_, _, hadd⟩ := c.add_frame sender message
  rw [hadd]

/-- The certificate that a message completes has counted enough, and those votes are the quorum. -/
theorem add_eq_some (h : (c.add sender message).2 = some q) :
    ∃ votes, (c.add sender message).1 = { c with votes, fired := true } ∧
      isMet { c with votes } = true ∧ q = quorum { c with votes } := by
  unfold add at h ⊢
  split at h
  · simp at h
  · rename_i hcounts
    rw [if_neg hcounts]
    dsimp only at h ⊢
    split at h
    · rename_i hmet
      rw [if_pos hmet]
      exact ⟨_, rfl, hmet, (Option.some.inj h).symm⟩
    · simp at h

/-- The leader's vote was there before, or it is the message just counted. -/
theorem leaderVote_add (h : (c.add sender message).1.leaderVote = some vote) :
    c.leaderVote = some vote ∨ (sender = c.leader ∧ message = vote) := by
  have hcounted : ∀ fired, leaderVote { c with votes := c.votes ++ [(sender, message)], fired } =
      some vote → c.leaderVote = some vote ∨ (sender = c.leader ∧ message = vote) := by
    intro fired hvote
    simp only [leaderVote, List.lookup_append, Option.or_eq_some_iff] at hvote
    rcases hvote with hvote | ⟨-, hvote⟩
    · exact .inl hvote
    · rw [List.lookup_cons] at hvote
      split at hvote
      · rename_i hsender
        exact .inr ⟨(beq_iff_eq.1 hsender).symm, Option.some.inj hvote⟩
      · simp at hvote
  unfold add at h
  split at h
  · exact .inl h
  · dsimp only at h
    split at h
    · exact hcounted true h
    · exact hcounted c.fired h

/-- The quorum that completes a certificate holds the leader's vote, and one if it is required. -/
theorem leader_of_add (h : (c.add sender message).2 = some q) :
    q.leader = (c.add sender message).1.leaderVote ∧
      (c.leaderRequired = true → q.leader.isSome = true) := by
  obtain ⟨votes, hadd, hmet, rfl⟩ := add_eq_some h
  rw [hadd]
  refine ⟨rfl, fun hrequired => ?_⟩
  simp only [isMet, hrequired, Bool.not_true, Bool.false_or, Bool.and_eq_true] at hmet
  exact hmet.2

/-! ### Who has been counted -/

/-- A certificate has counted each sender once, and only senders of a kind. -/
structure Counts (size : Nat) (leader : ReplicaId) (voted : ReplicaId → Prop)
    (c : Certificate α) : Prop where
  threshold_eq : c.threshold = size
  leader_eq : c.leader = leader
  nodup : c.senders.Nodup
  voted : ∀ id ∈ c.senders, voted id

/-- The counted senders are those from before, and perhaps the sender. -/
theorem mem_senders_add {id : ReplicaId} (h : id ∈ (c.add sender message).1.senders) :
    id ∈ c.senders ∨ id = sender := by
  unfold add at h
  split at h
  · exact .inl h
  · dsimp only at h
    split at h <;> simpa [senders] using h

theorem mem_senders_add_of_mem {id : ReplicaId} (h : id ∈ c.senders) (sender : ReplicaId)
    (message : α) : id ∈ (c.add sender message).1.senders := by
  unfold add
  split
  · exact h
  · have hadd : id ∈ c.senders ++ [sender] := List.mem_append_left _ h
    dsimp only
    split <;> simpa [senders] using hadd

/-- A message that completes a certificate brings it to its threshold. -/
theorem threshold_le_of_add (h : (c.add sender message).2 = some q) :
    c.threshold ≤ (c.add sender message).1.senders.length := by
  obtain ⟨votes, hadd, hmet, -⟩ := add_eq_some h
  rw [hadd]
  simp only [isMet, Bool.and_eq_true, decide_eq_true_eq] at hmet
  simpa [senders] using hmet.1

/-- A leader whose vote is in a certificate has been counted. -/
theorem leader_mem_senders (h : c.leaderVote.isSome = true) : c.leader ∈ c.senders := by
  rw [leaderVote, List.lookup_isSome_iff] at h
  obtain ⟨vote, hvote, hleader⟩ := h
  rw [beq_iff_eq.1 hleader]
  exact List.mem_map_of_mem hvote

/-! ### Whether it has completed -/

/-- A certificate has completed if what it has counted suffices. -/
def Settles (c : Certificate α) : Prop := c.isMet = true → c.fired = true

/-- A certificate has counted a sender, or it had completed before it could. -/
def Heard (c : Certificate α) (sender : ReplicaId) : Prop :=
  c.fired = true ∨ sender ∈ c.senders

theorem settles_new (rule : Threshold) (replicas : Nat) (leader : ReplicaId) {required : Bool}
    (h : 0 < rule.size replicas ∨ required = true) :
    (Certificate.new (α := α) rule replicas leader required).Settles := by
  intro hmet
  obtain ⟨hmet, hvote⟩ := Bool.and_eq_true_iff.1 hmet
  rcases h with hpos | rfl
  · exact absurd (of_decide_eq_true hmet) (Nat.not_le.2 hpos)
  · simp [leaderVote, new] at hvote

theorem Settles.add (h : c.Settles) (sender : ReplicaId) (message : α) :
    (c.add sender message).1.Settles := by
  unfold Certificate.add
  split
  · exact h
  · dsimp only
    split
    · exact fun _ => rfl
    · rename_i hunmet
      exact fun hmet => absurd hmet hunmet

theorem heard_add (c : Certificate α) (sender : ReplicaId) (message : α) :
    (c.add sender message).1.Heard sender := by
  unfold add
  split
  · rename_i hcounts
    simpa [Heard] using hcounts
  · dsimp only
    split <;> exact .inr (by simp [senders])

theorem Heard.add {id : ReplicaId} (h : c.Heard id) (sender : ReplicaId) (message : α) :
    (c.add sender message).1.Heard id := by
  refine h.imp (fun hfired => ?_) fun hmem => mem_senders_add_of_mem hmem sender message
  rw [fired_add, hfired, Bool.true_or]

/-- A certificate that has heard a sender counts nothing more from it. -/
theorem Heard.add_eq (h : c.Heard sender) (message : α) : c.add sender message = (c, none) := by
  unfold Certificate.add
  rw [if_pos]
  rcases h with hfired | hmem
  · simp [hfired]
  · simp [hmem]

/-- A certificate that has heard every replica has completed. -/
theorem Settles.fired_of_heard (h : c.Settles) {replicas : Nat} (hthreshold : c.threshold ≤ replicas)
    (hleader : c.leader < replicas) (hheard : ∀ id < replicas, c.Heard id) : c.fired = true := by
  by_cases hfired : c.fired = true
  · exact hfired
  · have hmem : ∀ id < replicas, id ∈ c.senders := fun id hid => (hheard id hid).resolve_left hfired
    have hsubset : List.range replicas ⊆ c.senders := fun id hid => hmem id (List.mem_range.1 hid)
    have hle := (List.subperm_of_subset List.nodup_range hsubset).length_le
    rw [List.length_range, senders, List.length_map] at hle
    have hvote : c.leaderVote.isSome = true := by
      obtain ⟨vote, hvote, hid⟩ := List.mem_map.1 (hmem c.leader hleader)
      exact List.lookup_isSome_iff.2 ⟨vote, hvote, by simp [hid]⟩
    refine h ?_
    simp [isMet, Nat.le_trans hthreshold hle, hvote]

namespace Counts

variable {size : Nat} {leader : ReplicaId} {voted voted' : ReplicaId → Prop}

theorem new (rule : Threshold) (replicas : Nat) (leader : ReplicaId) (required : Bool) :
    (Certificate.new (α := α) rule replicas leader required).Counts (rule.size replicas) leader
      voted where
  threshold_eq := rfl
  leader_eq := rfl
  nodup := List.nodup_nil
  voted := by simp [Certificate.new, senders]

theorem mono (h : c.Counts size leader voted) (hvoted : ∀ id, voted id → voted' id) :
    c.Counts size leader voted' where
  threshold_eq := h.threshold_eq
  leader_eq := h.leader_eq
  nodup := h.nodup
  voted id hid := hvoted id (h.voted id hid)

theorem add (h : c.Counts size leader voted) (hsender : voted sender) (message : α) :
    (c.add sender message).1.Counts size leader voted where
  threshold_eq := by rw [threshold_add, h.threshold_eq]
  leader_eq := by rw [leader_add, h.leader_eq]
  nodup := nodup_senders_add h.nodup sender message
  voted id hid := by
    rcases mem_senders_add hid with hid | rfl
    · exact h.voted id hid
    · exact hsender

/-- Whoever completes a certificate that has the leader attains the quorum. -/
theorem attained (h : c.Counts size leader voted) (hsender : voted sender)
    (hq : (c.add sender message).2 = some q) (hleader : leader ∈ (c.add sender message).1.senders) :
    Attained size leader voted := by
  have hadd := h.add hsender message
  refine ⟨(c.add sender message).1.senders, hadd.nodup, ?_, hleader, hadd.voted⟩
  have hlength := threshold_le_of_add hq
  rwa [h.threshold_eq] at hlength

end Counts

end Certificate

end WitnessReplication.Quorum
