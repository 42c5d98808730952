import WitnessReplication.Identity
import WitnessReplication.Quorum.Threshold
import WitnessReplication.Text.Blank

/-!
# Cluster configuration

A configuration fixes the size of a cluster, its leader and epoch, how weak commands travel, how
messages are batched, and how long waits may last. Durations are in milliseconds.

`Config.validate` and `Config.validateReplica` say why a configuration, or a replica in it, cannot
run; `ConfigError.message` words the causes.
-/

namespace WitnessReplication

/-- How weak commands travel: only through the leader, which answers after executing, or to every
replica, each of which answers at once. -/
inductive Variant where
  | leaderOnly
  | everyReplica
  deriving DecidableEq, Repr, Inhabited

namespace Variant

/-- Whether a replica takes weak commands at all. -/
def accepts : Variant → (isLeader : Bool) → Bool
  | .leaderOnly, isLeader => isLeader
  | .everyReplica, _ => true

/-- Whether a replica witnesses weak commands when they arrive. -/
def witnesses : Variant → (isLeader : Bool) → Bool
  | .leaderOnly, isLeader => isLeader
  | .everyReplica, _ => true

/-- Whether a weak command is answered when it arrives. -/
def repliesSpeculatively : Variant → Bool
  | .leaderOnly => false
  | .everyReplica => true

/-- Whether the leader answers a weak command once it has executed. -/
def repliesAfterExecute : Variant → Bool
  | .leaderOnly => true
  | .everyReplica => false

/-- The short name of a variant. -/
def name : Variant → String
  | .leaderOnly => "ht"
  | .everyReplica => "ho"

/-- The title of a variant. -/
def title : Variant → String
  | .leaderOnly => "Ht"
  | .everyReplica => "Ho"

/-- The names a variant goes by. -/
def ofName? (name : String) : Option Variant :=
  if name = "ht" ∨ name = "curp-ht" then some .leaderOnly
  else if name = "ho" ∨ name = "curp-ho" then some .everyReplica
  else none

end Variant

/-- The bounded waits of a cluster: for a slot to commit, for a slot to execute, and for a
client's previous weak command to execute. -/
inductive WaitKind where
  | commit
  | execute
  | causal
  deriving DecidableEq, Repr

/-- The name of a wait. -/
def WaitKind.name : WaitKind → String
  | .commit => "commit"
  | .execute => "execute"
  | .causal => "causal"

/-- Why a configuration, or a replica in it, cannot run. -/
inductive ConfigError where
  | empty
  | leader (id : ReplicaId) (replicas : Nat)
  | replica (id : ReplicaId) (replicas : Nat)
  | timeout (wait : WaitKind)
  | variant (name : String)
  | runtime
  deriving DecidableEq, Repr

namespace ConfigError

/-- The name of a cause. -/
def kind : ConfigError → String
  | .empty => "Empty"
  | .leader _ _ => "Leader"
  | .replica _ _ => "Replica"
  | .timeout _ => "Timeout"
  | .variant _ => "Variant"
  | .runtime => "Runtime"

/-- The wording of a cause. -/
def message : ConfigError → String
  | .empty => "cluster must contain at least one replica"
  | .leader id replicas =>
    "leader " ++ toString id ++ " is out of range for " ++ toString replicas ++ " replicas"
  | .replica id replicas =>
    "replica " ++ toString id ++ " is out of range for " ++ toString replicas ++ " replicas"
  | .timeout wait => wait.name ++ " timeout must be non-zero"
  | .variant name => "unknown protocol variant \x60" ++ name ++ "\x60"
  | .runtime => "batching requires a running Tokio runtime"

end ConfigError

/-- Reads a variant's name, blanks around it and the case of its letters aside. -/
def Variant.read (text : String) : Except ConfigError Variant :=
  let name := String.ofList ((Text.Blank.trimChars text.toList).map Char.toLower)
  match Variant.ofName? name with
  | some variant => .ok variant
  | none => .error (.variant name)

/-- The configuration of a cluster. -/
structure Config where
  replicas : Nat
  leader : ReplicaId
  ballot : Ballot := 0
  variant : Variant := .leaderOnly
  /-- How many slots may be served by tasks of their own. -/
  maxSlotTasks : Nat := 1024
  batching : Bool := false
  /-- How long a batch is held back to grow. -/
  batchDelay : Option Nat := none
  /-- Whether a strong read may be answered from a pending weak write on its key. -/
  speculativeReads : Bool := true
  commitWait : Nat := 1000
  executeWait : Nat := 5000
  causalWait : Nat := 1000
  deriving DecidableEq, Repr

namespace Config

/-- The configuration with batching, each batch held back for `delay` if one is given. -/
def withBatching (c : Config) (delay : Option Nat) : Config :=
  { c with batching := true, batchDelay := delay }

/-- How long a wait may last. -/
def wait (c : Config) : WaitKind → Nat
  | .commit => c.commitWait
  | .execute => c.executeWait
  | .causal => c.causalWait

/-- Finds the first fault of a configuration. -/
def validate (c : Config) : Except ConfigError Unit :=
  if c.replicas = 0 then .error .empty
  else if c.replicas ≤ c.leader then .error (.leader c.leader c.replicas)
  else
    match [WaitKind.commit, .execute, .causal].find? fun wait => c.wait wait = 0 with
    | some wait => .error (.timeout wait)
    | none => .ok ()

/-- Finds the first fault of a configuration, or that it has no replica `id`. -/
def validateReplica (c : Config) (id : ReplicaId) : Except ConfigError Unit :=
  match c.validate with
  | .error e => .error e
  | .ok () => if c.replicas ≤ id then .error (.replica id c.replicas) else .ok ()

/-- Whether `id` leads. -/
def isLeader (c : Config) (id : ReplicaId) : Bool := c.leader = id

/-- The number of replicas that must accept a slot. -/
def majority (c : Config) : Nat := Quorum.Threshold.majority.size c.replicas

/-- The number of replicas that must vouch for a command on the fast path. -/
def fastQuorum (c : Config) : Nat := Quorum.Threshold.threeQuarters.size c.replicas

end Config

end WitnessReplication
