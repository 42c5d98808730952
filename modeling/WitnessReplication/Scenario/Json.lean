import WitnessReplication.Command.Json
import WitnessReplication.Scenario

/-!
# Scenarios as JSON

How scenarios are written as JSON and read back. Only the number of replicas must be given; every
other part of a cluster has a default.

An instruction is a record with a `type` that says which one it is. Written as an array, the type
comes first. An instruction may hold members that it does not know, but no broken strings, no
numbers that overflow, and with the scenario around it at most 127 arrays and objects inside each
other.
-/

namespace WitnessReplication

open Json (asBool asInt64 asList asRecord asString demand orElse orNone)

namespace Scenario

namespace ClientSpec

/-- The fields of a client. -/
def fields : List Json.Field := [⟨"latencies_ms", .defaulted⟩]

/-- A client is written as a record. -/
def toJson (c : ClientSpec) : Json := .ofFields fields [.ofList .ofNat c.latencies]

/-- Reads a client. -/
def ofJson? : Json → Option ClientSpec :=
  asRecord fields fun
    | [latencies] => do return ⟨← orElse [] (asList Json.asNat64) latencies⟩
    | _ => none

end ClientSpec

namespace ClusterSpec

/-- The fields of a cluster. -/
def fields : List Json.Field :=
  [⟨"replicas", .required⟩, ⟨"leader", .defaulted⟩, ⟨"variant", .defaulted⟩,
    ⟨"clients", .defaulted⟩, ⟨"batching", .defaulted⟩, ⟨"batch_delay_ms", .defaulted⟩,
    ⟨"jitter_ms", .defaulted⟩, ⟨"max_desc_tasks", .defaulted⟩, ⟨"timeout_ms", .defaulted⟩]

/-- A cluster is written as a record, defaults included. -/
def toJson (c : ClusterSpec) : Json :=
  .ofFields fields
    [.ofNat c.replicas, .ofNat c.leader, c.variant.toJson, .ofList ClientSpec.toJson c.clients,
      .bool c.batching, .ofOption .ofNat c.batchDelay, .ofOption .ofNat c.jitter,
      .ofOption .ofNat c.maxSlotTasks, .ofNat c.timeout]

/-- Reads a cluster. -/
def ofJson? : Json → Option ClusterSpec :=
  asRecord fields fun
    | [replicas, leader, variant, clients, batching, batchDelay, jitter, maxSlotTasks,
        timeout] =>
      do return {
        replicas := ← demand Json.asNat64 replicas
        leader := ← orElse 0 Json.asNat64 leader
        variant := ← orElse .leaderOnly Variant.ofJson? variant
        clients := ← orElse [] (asList ClientSpec.ofJson?) clients
        batching := ← orElse false asBool batching
        batchDelay := ← orNone Json.asNat64 batchDelay
        jitter := ← orNone Json.asNat64 jitter
        maxSlotTasks := ← orNone Json.asNat64 maxSlotTasks
        timeout := ← orElse 5000 Json.asNat64 timeout }
    | _ => none

end ClusterSpec

namespace Instruction

/-- The type of an instruction. -/
def typeName : Instruction → String
  | .put .. => "put"
  | .get .. => "get"
  | .scan .. => "scan"
  | .weakPut .. => "weak_put"
  | .weakGet .. => "weak_get"
  | .causalPut .. => "causal_put"
  | .causalGet .. => "causal_get"
  | .sleep _ => "sleep"
  | .stats => "stats"

/-- The fields of a write besides its type. -/
def writeFields : List Json.Field :=
  [⟨"client", .required⟩, ⟨"key", .required⟩, ⟨"value", .required⟩]

/-- The fields of a read besides its type. -/
def readFields : List Json.Field := [⟨"client", .required⟩, ⟨"key", .required⟩]

/-- The fields of a scan besides its type. -/
def scanFields : List Json.Field :=
  [⟨"client", .required⟩, ⟨"key", .required⟩, ⟨"count", .required⟩]

/-- The fields of a pause besides its type. -/
def sleepFields : List Json.Field := [⟨"ms", .required⟩]

/-- The fields of an instruction besides its type. -/
def fields : Instruction → List Json.Field
  | .put .. | .weakPut .. | .causalPut .. => writeFields
  | .get .. | .weakGet .. | .causalGet .. => readFields
  | .scan .. => scanFields
  | .sleep _ => sleepFields
  | .stats => []

/-- The values of the fields of an instruction. -/
def values : Instruction → List Json
  | .put client key value | .weakPut client key value | .causalPut client key value =>
    [.ofNat client, .ofInt key, .ofString value]
  | .get client key | .weakGet client key | .causalGet client key => [.ofNat client, .ofInt key]
  | .scan client key count => [.ofNat client, .ofInt key, .ofNat count]
  | .sleep span => [.ofNat span]
  | .stats => []

/-- An instruction is written as a record that begins with its type. -/
def toJson (i : Instruction) : Json :=
  .ofFields (⟨"type", .required⟩ :: i.fields) (.ofString i.typeName :: i.values)

/-- Reads what a write is about. -/
def writeOf (make : Nat → Key → String → Instruction) : Json → Option Instruction :=
  asRecord writeFields fun
    | [client, key, value] => do
      return make (← demand Json.asNat64 client) (← demand asInt64 key) (← demand asString value)
    | _ => none

/-- Reads what a read is about. -/
def readOf (make : Nat → Key → Instruction) : Json → Option Instruction :=
  asRecord readFields fun
    | [client, key] => do return make (← demand Json.asNat64 client) (← demand asInt64 key)
    | _ => none

/-- Reads what a scan is about. -/
def scanOf : Json → Option Instruction :=
  asRecord scanFields fun
    | [client, key, count] => do
      return .scan (← demand Json.asNat64 client) (← demand asInt64 key)
        (← demand Json.asNat64 count)
    | _ => none

/-- Reads what a pause is about. -/
def sleepOf : Json → Option Instruction :=
  asRecord sleepFields fun
    | [span] => do return .sleep (← demand Json.asNat64 span)
    | _ => none

/-- Reads an instruction of a type from the rest of its record. -/
def ofTyped (typeName : String) (body : Json) : Option Instruction :=
  match typeName with
  | "put" => writeOf .put body
  | "get" => readOf .get body
  | "scan" => scanOf body
  | "weak_put" => writeOf .weakPut body
  | "weak_get" => readOf .weakGet body
  | "causal_put" => writeOf .causalPut body
  | "causal_get" => readOf .causalGet body
  | "sleep" => sleepOf body
  | "stats" => asRecord [] (fun _ => some .stats) body
  | _ => none

/-- How deep arrays and objects may nest in an instruction, itself included. -/
def depthLimit : Nat := 125

/-- Reads an instruction. -/
def ofJson? (j : Json) : Option Instruction :=
  if !j.isPlain depthLimit then none
  else
    match j with
    | .object members =>
      match members.partition fun member => member.1.text = some "type" with
      | ([(_, .text (some typeName))], rest) => ofTyped typeName (.object rest)
      | _ => none
    | .array (.text (some typeName) :: rest) => ofTyped typeName (.array rest)
    | _ => none

end Instruction

/-- The fields of a scenario. -/
def fields : List Json.Field := [⟨"cluster", .required⟩, ⟨"commands", .required⟩]

/-- A scenario is written as a record. -/
def toJson (s : Scenario) : Json :=
  .ofFields fields [s.cluster.toJson, .ofList Instruction.toJson s.instructions]

/-- Reads a scenario. -/
def ofJson? : Json → Option Scenario :=
  asRecord fields fun
    | [cluster, instructions] => do
      return ⟨← demand ClusterSpec.ofJson? cluster,
        ← demand (asList Instruction.ofJson?) instructions⟩
    | _ => none

end Scenario

end WitnessReplication
