import WitnessReplication.Config
import WitnessReplication.Text.Quoted

/-!
# Scenarios

A scenario describes a cluster and the instructions to run against it one at a time. A client is
named by its place in the cluster's list, and is bound to the replica for which it measured the
least latency.

Durations are in milliseconds.
-/

namespace WitnessReplication

namespace Scenario

/-- A client of a scenario: the latency it measured to each replica. -/
structure ClientSpec where
  latencies : List Nat := []
  deriving DecidableEq, Repr

/-- The cluster of a scenario. -/
structure ClusterSpec where
  replicas : Nat
  leader : ReplicaId := 0
  variant : Variant := .leaderOnly
  clients : List ClientSpec := []
  batching : Bool := false
  batchDelay : Option Nat := none
  /-- The longest random delay of a message. -/
  jitter : Option Nat := none
  maxSlotTasks : Option Nat := none
  /-- How long an instruction may take to complete. -/
  timeout : Nat := 5000
  deriving DecidableEq, Repr

/-- An instruction: a strong or weak command of a client, a pause, or a report. -/
inductive Instruction where
  | put (client : Nat) (key : Key) (value : String)
  | get (client : Nat) (key : Key)
  | scan (client : Nat) (key : Key) (count : Nat)
  | weakPut (client : Nat) (key : Key) (value : String)
  | weakGet (client : Nat) (key : Key)
  | causalPut (client : Nat) (key : Key) (value : String)
  | causalGet (client : Nat) (key : Key)
  | sleep (span : Nat)
  | stats
  deriving DecidableEq, Repr

namespace Instruction

/-- The text of an instruction. -/
def describe : Instruction → String
  | .put client key value => write "Put" client key value
  | .get client key => read "Get" client key
  | .scan client key count =>
    Text.Record.record "Scan"
      [("client", toString client), ("key", toString key), ("count", toString count)]
  | .weakPut client key value => write "WeakPut" client key value
  | .weakGet client key => read "WeakGet" client key
  | .causalPut client key value => write "CausalPut" client key value
  | .causalGet client key => read "CausalGet" client key
  | .sleep span => Text.Record.record "Sleep" [("ms", toString span)]
  | .stats => "Stats"
where
  /-- The text of a write. -/
  write (name : String) (client : Nat) (key : Key) (value : String) : String :=
    Text.Record.record name
      [("client", toString client), ("key", toString key), ("value", Text.Quoted.encode value)]
  /-- The text of a read. -/
  read (name : String) (client : Nat) (key : Key) : String :=
    Text.Record.record name [("client", toString client), ("key", toString key)]

end Instruction

/-- Why a scenario ends early. -/
inductive Error where
  | config (cause : ConfigError)
  | client (place : Nat)
  | unbound (place : Nat)
  | variant (instruction : String) (needed : Variant)
  | timeout (instruction : Instruction)
  deriving DecidableEq, Repr

namespace Error

/-- The name of a cause. -/
def kind : Error → String
  | .config cause => cause.kind
  | .client _ => "Client"
  | .unbound _ => "Unbound"
  | .variant _ _ => "Variant"
  | .timeout _ => "Timeout"

/-- The wording of a cause. -/
def message : Error → String
  | .config cause => cause.message
  | .client place => "client " ++ toString place ++ " is not declared in the cluster"
  | .unbound place => "client " ++ toString place ++ " has no replica to bind to"
  | .variant instruction needed =>
    "\x60" ++ instruction ++ "\x60 needs the " ++ needed.title ++ " variant"
  | .timeout instruction => instruction.describe ++ " did not complete in time"

end Error

end Scenario

/-- A cluster and the instructions to run against it. -/
structure Scenario where
  cluster : Scenario.ClusterSpec
  instructions : List Scenario.Instruction
  deriving DecidableEq, Repr

end WitnessReplication
