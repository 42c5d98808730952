import WitnessReplication.Identity
import WitnessReplication.Quorum.Threshold

/-!
# Quorum certificates

A certificate collects one message per replica and completes once, with the message that brings
the number of senders to its threshold. The leader's message is kept apart from the others, and
a certificate may insist on having it.
-/

namespace WitnessReplication.Quorum

/-- The messages of a completed certificate: the leader's, if it sent one, and those of the other
replicas in the order of their arrival. -/
structure Votes (α : Type) where
  leader : Option α
  rest : List α
  deriving DecidableEq, Repr

/-- A certificate under way: how many senders it needs, whose message is kept apart, whether that
message is required, the messages counted so far with their senders, and whether it has
completed. -/
structure Certificate (α : Type) where
  threshold : Nat
  leader : ReplicaId
  leaderRequired : Bool
  votes : List (ReplicaId × α)
  fired : Bool
  deriving DecidableEq, Repr

namespace Certificate

variable {α : Type}

/-- A certificate that has counted nothing. -/
def new (rule : Threshold) (replicas : Nat) (leader : ReplicaId) (leaderRequired : Bool) :
    Certificate α :=
  ⟨rule.size replicas, leader, leaderRequired, [], false⟩

/-- The replicas whose messages have been counted. -/
def senders (c : Certificate α) : List ReplicaId :=
  c.votes.map Prod.fst

/-- The leader's message, if it has been counted. -/
def leaderVote (c : Certificate α) : Option α :=
  c.votes.lookup c.leader

/-- The messages of the other replicas in the order of their arrival. -/
def otherVotes (c : Certificate α) : List α :=
  (c.votes.filter fun vote => vote.1 ≠ c.leader).map Prod.snd

/-- The counted messages, with the leader's apart. -/
def quorum (c : Certificate α) : Votes α :=
  ⟨c.leaderVote, c.otherVotes⟩

/-- Whether the counted messages suffice. -/
def isMet (c : Certificate α) : Bool :=
  decide (c.threshold ≤ c.votes.length) && (!c.leaderRequired || c.leaderVote.isSome)

/-- Counts a message, unless the certificate has completed or has counted one from the same
replica, and tells whether it completed the certificate. -/
def add (c : Certificate α) (sender : ReplicaId) (message : α) :
    Certificate α × Option (Votes α) :=
  if c.fired || c.senders.contains sender then (c, none)
  else
    let c := { c with votes := c.votes ++ [(sender, message)] }
    if c.isMet then ({ c with fired := true }, some c.quorum) else (c, none)

/-- Counts a message if it is acceptable. -/
def addIf (c : Certificate α) (accepts : α → Bool) (sender : ReplicaId) (message : α) :
    Certificate α × Option (Votes α) :=
  if accepts message then c.add sender message else (c, none)

/-- The number of messages counted. -/
def size (c : Certificate α) : Nat :=
  c.votes.length

/-- The text of a certificate. -/
def describe (c : Certificate α) : String :=
  Text.Record.record "Certificate"
    [("threshold", toString c.threshold), ("received", toString c.size),
      ("fired", if c.fired then "true" else "false")]

/-- A certificate that has completed counts nothing more. -/
theorem add_of_fired {c : Certificate α} (h : c.fired = true) (sender : ReplicaId) (message : α) :
    c.add sender message = (c, none) := by
  simp [add, h]

/-- A certificate has completed once a message has completed it. -/
theorem fired_add (c : Certificate α) (sender : ReplicaId) (message : α) :
    (c.add sender message).1.fired = (c.fired || (c.add sender message).2.isSome) := by
  unfold add
  split
  · simp
  · rename_i h
    have hf : c.fired = false := by simp_all
    dsimp only
    split <;> simp [hf]

/-- No replica is counted twice. -/
theorem nodup_senders_add {c : Certificate α} (h : c.senders.Nodup) (sender : ReplicaId)
    (message : α) : (c.add sender message).1.senders.Nodup := by
  unfold add
  split
  · exact h
  · rename_i hnew
    have hmem : sender ∉ c.senders := by simp_all
    have hadd : (c.senders ++ [sender]).Nodup := by
      rw [List.nodup_append]
      exact ⟨h, by simp, by rintro a ha b hb rfl; simp_all⟩
    dsimp only
    split <;> simpa [senders] using hadd

end Certificate

end WitnessReplication.Quorum
