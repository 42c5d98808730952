import WitnessReplication.Config
import WitnessReplication.Quorum.Certificate
import WitnessReplication.Store
import WitnessReplication.Witness

/-!
# Replicas

A replica keeps its store, a record of every slot that is under way, and what it needs to answer
clients before and after a slot executes. The leader assigns slots; every replica executes
committed slots in order.

Whatever a replica does to the world outside it is an `Effect`: a message, or word that a slot
was opened, committed or executed. `Effect.sent` gives the message of an effect where accepts and
acknowledgements are sent one by one.
-/

namespace WitnessReplication

namespace Replica

/-- How far a slot has come: its command may be unknown; its command is being replicated; a
quorum has accepted it. -/
inductive Phase where
  | start
  | accept
  | commit
  deriving DecidableEq, Repr, Inhabited

/-- A slot under way. -/
structure LiveSlot where
  id : Option CommandId := none
  command : Option Command := none
  phase : Phase := .start
  weak : Bool := false
  /-- Whether the committed result goes to the client unasked. -/
  sync : Bool := false
  /-- Whether executing a weak command answers its client. -/
  reply : Bool := false
  /-- Whether a weak command is answered as a causal one. -/
  causal : Bool := false
  accepted : Bool := false
  applied : Bool := false
  /-- The acknowledgements that the leader has counted. -/
  certificate : Option (Quorum.Certificate AcceptAck) := none
  /-- Whether a slot waits for this one to execute. That can only be the next one: a slot that is
  committed waits for the slot just before it, so what is stored of the waiting slot is that there
  is one. -/
  awaited : Bool := false
  deriving DecidableEq, Repr, Inhabited

/-- A client's latest write to a key that has not executed. -/
structure PendingWrite where
  seq : SeqNum
  value : Value
  deriving DecidableEq, Repr

/-- A command in the witness, retired when it executes. -/
structure Witnessed where
  command : Command
  strong : Bool
  deriving DecidableEq, Repr

/-- The accepted slots of a replica that does not lead: every slot below `next` is accepted, and
`accepted` holds the later ones, each with its command and whether that is weak. -/
structure OrderedPrefix where
  next : Slot
  accepted : Std.ExtTreeMap Slot (CommandId × Bool)

/-- A weak command that the leader has yet to put in order. -/
structure WeakCommand where
  id : CommandId
  command : Command
  /-- The position of its client's previous weak command. -/
  causalDep : Option SeqNum
  /-- Whether it is answered as a causal one. -/
  causal : Bool
  deriving DecidableEq, Repr

/-- What a replica does to the world outside it. -/
inductive Effect where
  /-- Sends a message to every other replica. -/
  | broadcast (message : ReplicaMessage)
  /-- Sends a message to a client. -/
  | tell (client : ClientId) (message : ClientMessage)
  /-- Sends an accept to every other replica, alone or in a batch. -/
  | accept (body : Accept)
  /-- Sends an acknowledgement to the leader, alone, or to every other replica in a batch. -/
  | acceptAck (body : AcceptAck)
  /-- A slot is now under way. -/
  | opened (slot : Slot)
  /-- A slot is now committed. -/
  | committed (slot : Slot)
  /-- A slot has executed. -/
  | executed (slot : Slot)
  /-- A weak command of a client has executed. -/
  | weakExecuted (client : ClientId)
  deriving DecidableEq, Repr

/-- The message of an effect, where nothing is batched. -/
def Effect.sent (leader : ReplicaId) : Effect → Option Sent
  | .broadcast m => some (.toAll m)
  | .tell client m => some (.toClient client m)
  | .accept a => some (.toAll (.accept a))
  | .acceptAck a => some (.toReplica leader (.acceptAck a))
  | _ => none

end Replica

open Replica in
/-- A replica. -/
structure Replica where
  id : ReplicaId
  config : Config
  store : Store
  witness : Witness
  /-- The next slot that the leader assigns. -/
  nextSlot : Slot
  /-- The slots under way. -/
  live : Std.ExtTreeMap Slot LiveSlot
  /-- Every slot below this one has executed. -/
  executed : Slot
  /-- The committed slots that have not executed. -/
  committed : Std.ExtTreeSet Slot
  /-- The results of the executed commands. -/
  values : Std.ExtTreeMap CommandId Value
  /-- The slots that the leader has assigned. -/
  slots : Std.ExtTreeMap CommandId Slot
  pendingWrites : Std.ExtTreeMap ClientKey PendingWrite
  /-- The latest executed weak command of each client. -/
  weakExecuted : Std.ExtTreeMap ClientId SeqNum
  witnessed : Std.ExtTreeMap CommandId Witnessed
  /-- The commands whose results the leader owes to a client that asked. -/
  syncWaiters : Std.ExtTreeSet CommandId
  ordered : OrderedPrefix

namespace Replica

/-- Replica `id` before its first message. -/
def initial (id : ReplicaId) (config : Config) : Replica where
  id := id
  config := config
  store := .empty
  witness := if config.isLeader id then .leader else .follower
  nextSlot := 0
  live := ∅
  executed := 0
  committed := ∅
  values := ∅
  slots := ∅
  pendingWrites := ∅
  weakExecuted := ∅
  witnessed := ∅
  syncWaiters := ∅
  ordered := ⟨0, ∅⟩

/-- Whether the replica leads. -/
def isLeader (r : Replica) : Bool := r.config.isLeader r.id

/-- Whether a slot has executed. -/
def isExecuted (r : Replica) (slot : Slot) : Bool := decide (slot < r.executed)

/-- Whether a slot is committed, executed slots included. -/
def isCommitted (r : Replica) (slot : Slot) : Bool := r.committed.contains slot || r.isExecuted slot

/-- The result of an executed command. -/
def value? (r : Replica) (id : CommandId) : Option Value := r.values[id]?

/-- The slot that the leader has assigned to a command. -/
def slot? (r : Replica) (id : CommandId) : Option Slot := r.slots[id]?

/-- Tells a client the committed result of a command. -/
def syncReply (r : Replica) (id : CommandId) (value : Value) : Effect :=
  .tell id.client (.syncReply ⟨r.id, id, value, .clear⟩)

/-- Tells a client the result of a weak command. -/
def weakReply (r : Replica) (id : CommandId) (value : Value) (causal : Bool) : Effect :=
  .tell id.client (if causal then .causalReply ⟨r.id, id, value⟩ else .weakReply ⟨r.id, id, value⟩)

end Replica

end WitnessReplication
