import WitnessReplication.Command.Json
import WitnessReplication.Message

/-!
# Messages as JSON

How messages are written as JSON and read back. The body of a message is a record; the message
is an object whose one member is named for its kind.
-/

namespace WitnessReplication

open Json (asBool asList asName asRecord asTagged demand orNone)

namespace Ack

/-- The name of a verdict. -/
def name : Ack → String
  | .clear => "True"
  | .refused => "False"
  | .ordered => "Ordered"

/-- A verdict is written by its name. -/
def toJson (a : Ack) : Json := .ofString a.name

/-- Reads a verdict. -/
def ofJson? : Json → Option Ack :=
  asName ([Ack.clear, .refused, .ordered].map fun a => (a.name, a))

end Ack

namespace Path

/-- The name of a path. -/
def name : Path → String
  | .fast => "fast"
  | .slow => "slow"
  | .weak => "weak"

/-- A path is written by its name. -/
def toJson (p : Path) : Json := .ofString p.name

/-- Reads a path. -/
def ofJson? : Json → Option Path :=
  asName ([Path.fast, .slow, .weak].map fun p => (p.name, p))

end Path

namespace Propose

/-- The fields of a proposal. -/
def fields : List Json.Field := [⟨"cmd_id", .required⟩, ⟨"command", .required⟩]

/-- A proposal is written as a record. -/
def toJson (m : Propose) : Json :=
  .ofFields fields [m.id.toJson, m.command.toJson]

/-- Reads a proposal. -/
def ofJson? : Json → Option Propose :=
  asRecord fields fun
    | [id, command] => do
      return ⟨← demand CommandId.ofJson? id, ← demand Command.ofJson? command⟩
    | _ => none

end Propose

namespace Sync

/-- The fields of a request for a result. -/
def fields : List Json.Field := [⟨"cmd_id", .required⟩]

/-- A request for a result is written as a record. -/
def toJson (m : Sync) : Json := .ofFields fields [m.id.toJson]

/-- Reads a request for a result. -/
def ofJson? : Json → Option Sync :=
  asRecord fields fun
    | [id] => do return ⟨← demand CommandId.ofJson? id⟩
    | _ => none

end Sync

namespace WeakPropose

/-- The fields of a weak proposal. -/
def fields : List Json.Field :=
  [⟨"cmd_id", .required⟩, ⟨"command", .required⟩, ⟨"causal_dep", .optional⟩,
    ⟨"bound_replica", .optional⟩]

/-- A weak proposal is written as a record. -/
def toJson (m : WeakPropose) : Json :=
  .ofFields fields
    [m.id.toJson, m.command.toJson, .ofOption .ofNat m.causalDep, .ofOption .ofNat m.boundReplica]

/-- Reads a weak proposal. -/
def ofJson? : Json → Option WeakPropose :=
  asRecord fields fun
    | [id, command, causalDep, boundReplica] => do
      return ⟨← demand CommandId.ofJson? id, ← demand Command.ofJson? command,
        ← orNone Json.asNat64 causalDep, ← orNone Json.asNat64 boundReplica⟩
    | _ => none

end WeakPropose

namespace Accept

/-- The fields of an accept. -/
def fields : List Json.Field :=
  [⟨"ballot", .required⟩, ⟨"cmd_id", .required⟩, ⟨"slot", .required⟩, ⟨"command", .optional⟩,
    ⟨"weak", .required⟩]

/-- An accept is written as a record. -/
def toJson (m : Accept) : Json :=
  .ofFields fields
    [.ofNat m.ballot, m.id.toJson, .ofNat m.slot, .ofOption Command.toJson m.command, .bool m.weak]

/-- Reads an accept. -/
def ofJson? : Json → Option Accept :=
  asRecord fields fun
    | [ballot, id, slot, command, weak] => do
      return ⟨← demand Json.asNat32 ballot, ← demand CommandId.ofJson? id,
        ← demand Json.asNat64 slot, ← orNone Command.ofJson? command, ← demand asBool weak⟩
    | _ => none

end Accept

namespace AcceptAck

/-- The fields of an acknowledgement. -/
def fields : List Json.Field := [⟨"ballot", .required⟩, ⟨"slot", .required⟩, ⟨"replica", .required⟩]

/-- An acknowledgement is written as a record. -/
def toJson (m : AcceptAck) : Json :=
  .ofFields fields [.ofNat m.ballot, .ofNat m.slot, .ofNat m.replica]

/-- Reads an acknowledgement. -/
def ofJson? : Json → Option AcceptAck :=
  asRecord fields fun
    | [ballot, slot, replica] => do
      return ⟨← demand Json.asNat32 ballot, ← demand Json.asNat64 slot,
        ← demand Json.asNat64 replica⟩
    | _ => none

end AcceptAck

namespace Commit

/-- The fields of a commit. -/
def fields : List Json.Field := [⟨"ballot", .required⟩, ⟨"slot", .required⟩]

/-- A commit is written as a record. -/
def toJson (m : Commit) : Json :=
  .ofFields fields [.ofNat m.ballot, .ofNat m.slot]

/-- Reads a commit. -/
def ofJson? : Json → Option Commit :=
  asRecord fields fun
    | [ballot, slot] => do
      return ⟨← demand Json.asNat32 ballot, ← demand Json.asNat64 slot⟩
    | _ => none

end Commit

namespace Batch

/-- The fields of a batch. -/
def fields : List Json.Field := [⟨"accepts", .required⟩, ⟨"acks", .required⟩]

/-- A batch is written as a record. -/
def toJson (m : Batch) : Json :=
  .ofFields fields [.ofList Accept.toJson m.accepts, .ofList AcceptAck.toJson m.acks]

/-- Reads a batch. -/
def ofJson? : Json → Option Batch :=
  asRecord fields fun
    | [accepts, acks] => do
      return ⟨← demand (asList Accept.ofJson?) accepts, ← demand (asList AcceptAck.ofJson?) acks⟩
    | _ => none

end Batch

namespace ReplicaMessage

/-- The object with one member, named for the kind of the message. -/
def toJson : ReplicaMessage → Json
  | .propose m => .ofMembers [("Propose", m.toJson)]
  | .sync m => .ofMembers [("Sync", m.toJson)]
  | .weakPropose m => .ofMembers [("WeakPropose", m.toJson)]
  | .causalPropose m => .ofMembers [("CausalPropose", m.toJson)]
  | .accept m => .ofMembers [("Accept", m.toJson)]
  | .acceptAck m => .ofMembers [("AcceptAck", m.toJson)]
  | .commit m => .ofMembers [("Commit", m.toJson)]
  | .batch m => .ofMembers [("Batch", m.toJson)]

/-- Reads a message to a replica. -/
def ofJson? (j : Json) : Option ReplicaMessage :=
  match asTagged j with
  | some ("Propose", body) => (Propose.ofJson? body).map .propose
  | some ("Sync", body) => (Sync.ofJson? body).map .sync
  | some ("WeakPropose", body) => (WeakPropose.ofJson? body).map .weakPropose
  | some ("CausalPropose", body) => (WeakPropose.ofJson? body).map .causalPropose
  | some ("Accept", body) => (Accept.ofJson? body).map .accept
  | some ("AcceptAck", body) => (AcceptAck.ofJson? body).map .acceptAck
  | some ("Commit", body) => (Commit.ofJson? body).map .commit
  | some ("Batch", body) => (Batch.ofJson? body).map .batch
  | _ => none

end ReplicaMessage

namespace Reply

/-- The fields of a result. -/
def fields : List Json.Field :=
  [⟨"replica", .required⟩, ⟨"cmd_id", .required⟩, ⟨"value", .required⟩, ⟨"ok", .required⟩]

/-- A result is written as a record. -/
def toJson (m : Reply) : Json :=
  .ofFields fields [.ofNat m.replica, m.id.toJson, m.value.toJson, m.ok.toJson]

/-- Reads a result. -/
def ofJson? : Json → Option Reply :=
  asRecord fields fun
    | [replica, id, value, ok] => do
      return ⟨← demand Json.asNat64 replica, ← demand CommandId.ofJson? id,
        ← demand Value.ofJson? value, ← demand Ack.ofJson? ok⟩
    | _ => none

end Reply

namespace RecordAck

/-- The fields of a witness's verdict. -/
def fields : List Json.Field :=
  [⟨"replica", .required⟩, ⟨"ballot", .required⟩, ⟨"cmd_id", .required⟩, ⟨"ok", .required⟩,
    ⟨"weak_dep", .optional⟩]

/-- A witness's verdict is written as a record. -/
def toJson (m : RecordAck) : Json :=
  .ofFields fields
    [.ofNat m.replica, .ofNat m.ballot, m.id.toJson, m.ok.toJson,
      .ofOption CommandId.toJson m.weakDep]

/-- Reads a witness's verdict. -/
def ofJson? : Json → Option RecordAck :=
  asRecord fields fun
    | [replica, ballot, id, ok, weakDep] => do
      return ⟨← demand Json.asNat64 replica, ← demand Json.asNat32 ballot,
        ← demand CommandId.ofJson? id, ← demand Ack.ofJson? ok, ← orNone CommandId.ofJson? weakDep⟩
    | _ => none

end RecordAck

namespace WeakReply

/-- The fields of the result of a weak command. -/
def fields : List Json.Field :=
  [⟨"replica", .required⟩, ⟨"cmd_id", .required⟩, ⟨"value", .required⟩]

/-- The result of a weak command is written as a record. -/
def toJson (m : WeakReply) : Json :=
  .ofFields fields [.ofNat m.replica, m.id.toJson, m.value.toJson]

/-- Reads the result of a weak command. -/
def ofJson? : Json → Option WeakReply :=
  asRecord fields fun
    | [replica, id, value] => do
      return ⟨← demand Json.asNat64 replica, ← demand CommandId.ofJson? id,
        ← demand Value.ofJson? value⟩
    | _ => none

end WeakReply

namespace ClientMessage

/-- The object with one member, named for the kind of the message. -/
def toJson : ClientMessage → Json
  | .reply m => .ofMembers [("Reply", m.toJson)]
  | .syncReply m => .ofMembers [("SyncReply", m.toJson)]
  | .recordAck m => .ofMembers [("RecordAck", m.toJson)]
  | .weakReply m => .ofMembers [("WeakReply", m.toJson)]
  | .causalReply m => .ofMembers [("CausalReply", m.toJson)]

/-- Reads a message to a client. -/
def ofJson? (j : Json) : Option ClientMessage :=
  match asTagged j with
  | some ("Reply", body) => (Reply.ofJson? body).map .reply
  | some ("SyncReply", body) => (Reply.ofJson? body).map .syncReply
  | some ("RecordAck", body) => (RecordAck.ofJson? body).map .recordAck
  | some ("WeakReply", body) => (WeakReply.ofJson? body).map .weakReply
  | some ("CausalReply", body) => (WeakReply.ofJson? body).map .causalReply
  | _ => none

end ClientMessage

namespace Sent

/-- A sent message is written with its destination: `all`, or the number of a replica after `r`
or of a client after `c`. -/
def toJson : Sent → Json
  | .toAll m => .ofMembers [("msg", m.toJson), ("to", .ofString "all")]
  | .toReplica id m => .ofMembers [("msg", m.toJson), ("to", .ofString ("r" ++ toString id))]
  | .toClient id m => .ofMembers [("msg", m.toJson), ("to", .ofString ("c" ++ toString id))]

end Sent

end WitnessReplication
