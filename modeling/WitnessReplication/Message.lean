import WitnessReplication.Command

/-!
# Messages

What replicas and clients tell each other. Strong commands go to every replica as proposals;
the leader answers with results, the others with verdicts. Accepts, acknowledgements and commits
carry the leader's order of slots.
-/

namespace WitnessReplication

/-- A verdict on a command: no conflicting strong write is pending, one is, or the replica has
seen the command in the leader's order. The leader answers `refused` when the slot a command
depends on is not committed. -/
inductive Ack where
  | clear
  | refused
  | ordered
  deriving DecidableEq, Repr, Inhabited

/-- A strong command, sent to every replica. -/
structure Propose where
  id : CommandId
  command : Command
  deriving DecidableEq, Repr

/-- A client's request for the result that the log gives a command. -/
structure Sync where
  id : CommandId
  deriving DecidableEq, Repr

/-- A weak command: the position of its client's previous weak command, and the replica whose
answer the client listens to. -/
structure WeakPropose where
  id : CommandId
  command : Command
  causalDep : Option SeqNum
  boundReplica : Option ReplicaId
  deriving DecidableEq, Repr

/-- The leader's assignment of a command to a slot. -/
structure Accept where
  ballot : Ballot
  id : CommandId
  slot : Slot
  command : Option Command
  weak : Bool
  deriving DecidableEq, Repr

/-- A replica's acknowledgement that it has accepted a slot. -/
structure AcceptAck where
  ballot : Ballot
  slot : Slot
  replica : ReplicaId
  deriving DecidableEq, Repr

/-- Word that a slot is committed. -/
structure Commit where
  ballot : Ballot
  slot : Slot
  deriving DecidableEq, Repr

/-- Accepts and acknowledgements sent together. -/
structure Batch where
  accepts : List Accept
  acks : List AcceptAck
  deriving DecidableEq, Repr

namespace Batch

/-- The number of messages in a batch. -/
def size (b : Batch) : Nat := b.accepts.length + b.acks.length

/-- Whether a batch holds nothing. -/
def isEmpty (b : Batch) : Bool := b.size = 0

end Batch

/-- A message to a replica. -/
inductive ReplicaMessage where
  | propose (body : Propose)
  | sync (body : Sync)
  | weakPropose (body : WeakPropose)
  | causalPropose (body : WeakPropose)
  | accept (body : Accept)
  | acceptAck (body : AcceptAck)
  | commit (body : Commit)
  | batch (body : Batch)
  deriving DecidableEq, Repr

/-- The command that a message is about, if it is about one. -/
def ReplicaMessage.commandId? : ReplicaMessage → Option CommandId
  | .propose m => some m.id
  | .sync m => some m.id
  | .weakPropose m => some m.id
  | .causalPropose m => some m.id
  | .accept m => some m.id
  | .acceptAck _ => none
  | .commit _ => none
  | .batch _ => none

/-- The slot that a message is about, if it is about one. -/
def ReplicaMessage.slot? : ReplicaMessage → Option Slot
  | .accept m => some m.slot
  | .acceptAck m => some m.slot
  | .commit m => some m.slot
  | _ => none

/-- The leader's result for a command. -/
structure Reply where
  replica : ReplicaId
  id : CommandId
  value : Value
  ok : Ack
  deriving DecidableEq, Repr

/-- A witness's verdict on a command, with the pending weak write it may depend on. -/
structure RecordAck where
  replica : ReplicaId
  ballot : Ballot
  id : CommandId
  ok : Ack
  weakDep : Option CommandId
  deriving DecidableEq, Repr

/-- The result of a weak command. -/
structure WeakReply where
  replica : ReplicaId
  id : CommandId
  value : Value
  deriving DecidableEq, Repr

/-- A message to a client: the leader's speculative result, its committed result, a witness's
verdict, or the result of a weak command, after execution or speculative. -/
inductive ClientMessage where
  | reply (body : Reply)
  | syncReply (body : Reply)
  | recordAck (body : RecordAck)
  | weakReply (body : WeakReply)
  | causalReply (body : WeakReply)
  deriving DecidableEq, Repr

/-- A message with its destination: every replica but the sender, one replica, or one client. -/
inductive Sent where
  | toAll (message : ReplicaMessage)
  | toReplica (id : ReplicaId) (message : ReplicaMessage)
  | toClient (id : ClientId) (message : ClientMessage)
  deriving DecidableEq, Repr

/-- How a command completed: on the fast path, on the slow path, or as a weak command. -/
inductive Path where
  | fast
  | slow
  | weak
  deriving DecidableEq, Repr, Inhabited

/-- The title of a path. -/
def Path.title : Path → String
  | .fast => "Fast"
  | .slow => "Slow"
  | .weak => "Weak"

end WitnessReplication
