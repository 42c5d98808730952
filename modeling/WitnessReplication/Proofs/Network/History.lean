import WitnessReplication.Network
import WitnessReplication.Proofs.Replica.Responding

/-!
# Histories

A history is a network with what happened on the way to it: the order in which the leader gave
out slots, the requests that clients issued and the commands that completed. Every network that
actions lead to has one.
-/

namespace WitnessReplication

namespace Network

/-- The request that an action issues, if it issues one. -/
def requested (n : Network) (action : Action) : List Request :=
  match action with
  | .propose _ c => ((n.perform action).issued.map fun id => ⟨id, c, false⟩).toList
  | .proposeWeak _ c => ((n.perform action).issued.map fun id => ⟨id, c, true⟩).toList
  | _ => []

/-- What the leader adds to its order when it gets a letter. -/
def taken (n : Network) : Letter → Log
  | .toReplica id m =>
    match n.replicas[id]? with
    | some r => if r.isLeader then r.assigned m else []
    | none => []
  | .toClient _ _ => []

/-- What an action makes the leader add to its order. -/
def assigned (n : Network) : Action → Log
  | .deliver place =>
    match n.pool[place]? with
    | some letter => n.taken letter
    | none => []
  | _ => []

end Network

/-- A network with what happened on the way to it. -/
structure History where
  network : Network
  /-- The leader's order of slots. -/
  log : Log
  issued : List Request
  completions : List Client.Completion

namespace History

open Network

/-- The history of a network before its first action. -/
def start (n : Network) : History := ⟨n, [], [], []⟩

/-- The history after one more action. -/
def act (h : History) (action : Action) : History :=
  ⟨h.network.act action, h.log ++ h.network.assigned action,
    h.issued ++ h.network.requested action,
    h.completions ++ (h.network.perform action).completion.toList⟩

/-- The history after some more actions. -/
def run (h : History) (actions : List Action) : History := actions.foldl act h

/-- The histories that a configuration and its clients can get to. -/
inductive Reachable (config : Config) (bounds : List ReplicaId) : History → Prop
  | start {n : Network} (h : Network.start config bounds = .ok n) :
      Reachable config bounds (History.start n)
  | act {h : History} (action : Action) (hh : Reachable config bounds h) :
      Reachable config bounds (h.act action)

/-- How far the leader of a configuration has executed. -/
def frontier (config : Config) (h : History) : Slot :=
  ((h.network.replicas[config.leader]?).map Replica.executed).getD 0

/-- An issued request has completed with a value on a path. -/
def Completed (h : History) (q : Request) (value : Value) (path : Path) : Prop :=
  q ∈ h.issued ∧ ⟨q.id, value, path⟩ ∈ h.completions

variable {config : Config} {bounds : List ReplicaId} {h : History}

theorem Reachable.run (hh : Reachable config bounds h) (actions : List Action) :
    Reachable config bounds (h.run actions) := by
  induction actions generalizing h with
  | nil => exact hh
  | cons action actions ih => exact ih (hh.act action)

/-- A reachable history has a reachable network. -/
theorem Reachable.network (hh : Reachable config bounds h) :
    Network.Reachable config bounds h.network := by
  induction hh with
  | start hstart => exact .start hstart
  | act action _ ih => exact .act action ih

/-- A reachable network has a reachable history. -/
theorem exists_reachable {n : Network} (hn : Network.Reachable config bounds n) :
    ∃ h, Reachable config bounds h ∧ h.network = n := by
  induction hn with
  | start hstart => exact ⟨_, .start hstart, rfl⟩
  | act action _ ih =>
      obtain ⟨h, hh, rfl⟩ := ih
      exact ⟨_, hh.act action, rfl⟩

/-- The log of a history only grows. -/
theorem log_mono_run (h : History) (actions : List Action) : h.log <+: (h.run actions).log := by
  induction actions generalizing h with
  | nil => exact List.prefix_rfl
  | cons action actions ih => exact (List.prefix_append _ _).trans (ih (h.act action))

/-- Two replicas, the first of which leads. -/
def pairConfig : Config := { replicas := 2, leader := 0 }

/-- Two replicas and two clients before the first action. -/
def pair : History :=
  start
    ⟨[.initial 0 pairConfig, .initial 1 pairConfig],
      [{ id := 1, bound := 0, config := pairConfig }, { id := 2, bound := 0, config := pairConfig }],
      []⟩

theorem reachable_pair : Reachable pairConfig [0, 0] pair := .start rfl

end History

end WitnessReplication
