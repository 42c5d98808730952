import Mathlib.Order.Bounds.Basic
import WitnessReplication.Proofs.Replica.Digesting

/-!
# Execution depends on what has arrived

A replica that does not lead may be sent any messages, in any order, accepts alone or in batches,
some of them twice, some of another epoch. After each message it has executed exactly the slots
before the first one that still lacks an accept or a commit of its epoch: no slot that could
execute is left behind, and none executes twice. Its store is what the commands of those slots
make of the empty store, in the order of the slots (`executes_arrivals`). So two replicas for
which the same has come, in whatever order, have executed the same (`executed_eq_of_arrivals`).
-/

namespace WitnessReplication

/-- What has come for a slot in an epoch, among messages in order. -/
def Notice.ofMessages (ballot : Ballot) (ms : List ReplicaMessage) : Slot → Notice :=
  .ofArrivals ballot (ms.flatMap ReplicaMessage.accepts) (ms.flatMap ReplicaMessage.commits)

theorem ReplicaMessage.mem_commits {m : ReplicaMessage} {b : Commit} :
    b ∈ m.commits ↔ m = .commit b := by
  cases m <;> simp [ReplicaMessage.commits, eq_comm]

/-- If all accepts of an epoch name a command, a slot is ready once an accept and a commit of the
epoch have come for it. -/
theorem Notice.ready_ofMessages {ballot : Ballot} {ms : List ReplicaMessage}
    (hcommands : ∀ m ∈ ms, ∀ a ∈ m.accepts, a.ballot = ballot → a.command.isSome = true)
    (slot : Slot) : (Notice.ofMessages ballot ms slot).Ready ↔
      (∃ m ∈ ms, ∃ a ∈ m.accepts, a.ballot = ballot ∧ a.slot = slot) ∧
        ReplicaMessage.commit ⟨ballot, slot⟩ ∈ ms := by
  have hcommitted : (Notice.ofMessages ballot ms slot).committed = true ↔
      ReplicaMessage.commit ⟨ballot, slot⟩ ∈ ms := by
    simp [Notice.ofMessages, Notice.ofArrivals, ReplicaMessage.mem_commits]
  have haccepted : (Notice.ofMessages ballot ms slot).command?.isSome = true ↔
      ∃ m ∈ ms, ∃ a ∈ m.accepts, a.ballot = ballot ∧ a.slot = slot := by
    constructor
    · intro hcommand
      obtain ⟨a, ha⟩ := Option.isSome_iff_exists.1 (Option.isSome_of_isSome_bind hcommand)
      obtain ⟨m, hm, ham⟩ := List.mem_flatMap.1 (List.mem_of_find?_eq_some ha)
      exact ⟨m, hm, a, ham, by simpa using List.find?_some ha⟩
    · rintro ⟨m, hm, a, ham, hhit⟩
      have hfound : (Notice.ofMessages ballot ms slot).accept?.isSome = true :=
        List.find?_isSome.2 ⟨a, List.mem_flatMap.2 ⟨m, hm, ham⟩, by simpa using hhit⟩
      obtain ⟨first, hfirst⟩ := Option.isSome_iff_exists.1 hfound
      obtain ⟨m', hm', hfm'⟩ := List.mem_flatMap.1 (List.mem_of_find?_eq_some hfirst)
      have hepoch : first.ballot = ballot ∧ first.slot = slot := by
        simpa using List.find?_some hfirst
      rw [Notice.command?, hfirst, Option.bind_some]
      exact hcommands m' hm' first hfm' hepoch.1
  rw [Notice.Ready, hcommitted, haccepted, and_comm]

namespace Replica

/-- A replica after a sequence of messages. -/
def handleAll (r : Replica) (ms : List ReplicaMessage) : Replica :=
  ms.foldl (fun r m => (r.handle m).1) r

variable {id : ReplicaId} {config : Config} {known : Slot → Notice} {r : Replica}
variable {accepts : List Accept} {commits : List Commit} {ms ms' : List ReplicaMessage}

/-- A replica that leaves no slot which could execute has executed up to the first slot that is not
ready. -/
theorem Digests.isLeast_executed (h : r.Digests id config known)
    (hsteady : ∃ top, r.Steady top ∅) :
    IsLeast {slot | ¬(known slot).Ready} r.executed := by
  obtain ⟨top, hsteady⟩ := hsteady
  constructor
  · intro hready
    have hx := (h.slots r.executed (Nat.le_refl _)).executable hready
    cases hs : r.live[r.executed]? with
    | none =>
        rw [hs] at hx
        simp [LiveSlot.executable?] at hx
    | some s =>
        rw [hs, Option.getD_some] at hx
        exact Nat.lt_irrefl _ (hsteady.waits hs hx (by simp)).1
  · intro slot hslot
    by_contra hlt
    exact hslot (h.ready slot (Nat.not_le.1 hlt))

theorem Digests.handleAll (h : r.Digests id config (Notice.ofArrivals config.ballot accepts commits))
    (hleader : config.isLeader id = false) (ms : List ReplicaMessage) :
    (r.handleAll ms).Digests id config (Notice.ofArrivals config.ballot
      (accepts ++ ms.flatMap ReplicaMessage.accepts)
      (commits ++ ms.flatMap ReplicaMessage.commits)) := by
  induction ms generalizing r accepts commits with
  | nil =>
      rw [List.flatMap_nil, List.flatMap_nil, List.append_nil, List.append_nil]
      exact h
  | cons m ms ih =>
      rw [List.flatMap_cons, List.flatMap_cons, ← List.append_assoc, ← List.append_assoc]
      exact ih (h.handle hleader m)

theorem steady_handleAll (h : ∃ top, r.Steady top ∅) (ms : List ReplicaMessage) :
    ∃ top, (r.handleAll ms).Steady top ∅ := by
  induction ms generalizing r with
  | nil => exact h
  | cons m ms ih => exact ih (steady_handle h m)

/-- After any messages, each slot of a replica that does not lead holds what has come for it. -/
theorem digests_handleAll (hleader : config.isLeader id = false) (ms : List ReplicaMessage) :
    ((initial id config).handleAll ms).Digests id config (Notice.ofMessages config.ballot ms) :=
  (digests_initial id config).handleAll hleader ms

/-- After any messages, a replica that does not lead has executed up to the first slot that is not
ready. -/
theorem isLeast_executed_handleAll (hleader : config.isLeader id = false)
    (ms : List ReplicaMessage) :
    IsLeast {slot | ¬(Notice.ofMessages config.ballot ms slot).Ready}
      ((initial id config).handleAll ms).executed :=
  (digests_handleAll hleader ms).isLeast_executed
    (steady_handleAll ⟨0, steady_initial id config⟩ ms)

/-- After any messages, whose accepts of its epoch name their commands, a replica that does not lead
has executed up to the least slot for which not both an accept and a commit of its epoch have come.
Its store is what the commands of these slots, each as the first accept named it, make of the empty
store in order, and has counted each slot once. -/
theorem executes_arrivals (hleader : config.isLeader id = false) (ms : List ReplicaMessage)
    (hcommands : ∀ m ∈ ms, ∀ a ∈ m.accepts, a.ballot = config.ballot → a.command.isSome = true) :
    IsLeast {slot | ¬((∃ m ∈ ms, ∃ a ∈ m.accepts, a.ballot = config.ballot ∧ a.slot = slot) ∧
        ReplicaMessage.commit ⟨config.ballot, slot⟩ ∈ ms)}
      ((initial id config).handleAll ms).executed ∧
    ∃ commands : List Command,
      (List.range ((initial id config).handleAll ms).executed).map (fun slot =>
        ((ms.flatMap ReplicaMessage.accepts).find? fun a =>
          decide (a.ballot = config.ballot ∧ a.slot = slot)).bind Accept.command) =
          commands.map some ∧
      ((initial id config).handleAll ms).store = Store.empty.executeAll commands ∧
      ((initial id config).handleAll ms).store.applied =
        ((initial id config).handleAll ms).executed := by
  constructor
  case left =>
    simp only [← Notice.ready_ofMessages hcommands]
    exact isLeast_executed_handleAll hleader ms
  case right =>
    obtain ⟨commands, hnamed, hstore⟩ := (digests_handleAll hleader ms).history
    have hlength := congrArg List.length hnamed
    rw [List.length_map, List.length_map, List.length_range] at hlength
    refine ⟨commands, hnamed, hstore, ?_⟩
    rw [hstore, Store.applied_executeAll, hlength]
    exact Nat.zero_add _

/-- A cluster of three in epoch 4. -/
def epochFour : Config := { replicas := 3, leader := 0, ballot := 4 }

/-- A commit before its accept, a batch whose slots descend, a commit of another epoch and a second
accept of a slot. -/
def scattered : List ReplicaMessage :=
  [.commit ⟨4, 1⟩,
    .batch ⟨[⟨4, ⟨1, 1⟩, 1, some (.get 1), false⟩,
      ⟨4, ⟨1, 0⟩, 0, some ⟨.put, 1, ⟨[97]⟩⟩, false⟩], []⟩,
    .commit ⟨0, 0⟩,
    .accept ⟨4, ⟨2, 0⟩, 0, some ⟨.put, 1, ⟨[98]⟩⟩, false⟩,
    .commit ⟨4, 0⟩]

theorem executes_scattered :
    ((initial 1 epochFour).handleAll scattered).executed = 2 ∧
      ((initial 1 epochFour).handleAll scattered).store =
        Store.empty.executeAll [⟨.put, 1, ⟨[97]⟩⟩, .get 1] ∧
      ((initial 1 epochFour).handleAll scattered).store.applied = 2 := by
  have hleader : epochFour.isLeader 1 = false := rfl
  obtain ⟨hleast, commands, hcommands, hstore, happlied⟩ :=
    executes_arrivals hleader scattered (by decide)
  have hexec : ((initial 1 epochFour).handleAll scattered).executed = 2 := by
    refine hleast.unique ⟨by decide, fun slot hslot => ?_⟩
    by_contra hlt
    obtain rfl | rfl : slot = 0 ∨ slot = 1 := by lia
    · exact hslot (by decide)
    · exact hslot (by decide)
  rw [hexec] at hcommands
  have hmap : [⟨.put, 1, ⟨[97]⟩⟩, .get 1].map some = commands.map some := hcommands
  rw [List.map_inj_right (by simp)] at hmap
  exact ⟨hexec, hmap ▸ hstore, happlied.trans hexec⟩

/-- Replicas for which the same has come, in whatever order, have executed the same. -/
theorem executed_eq_of_arrivals {id' : ReplicaId} (hleader : config.isLeader id = false)
    (hleader' : config.isLeader id' = false)
    (hsame : Notice.ofMessages config.ballot ms = Notice.ofMessages config.ballot ms') :
    ((initial id config).handleAll ms).executed = ((initial id' config).handleAll ms').executed ∧
      ((initial id config).handleAll ms).store = ((initial id' config).handleAll ms').store := by
  have hexec := (isLeast_executed_handleAll hleader ms).unique
    (hsame ▸ isLeast_executed_handleAll hleader' ms')
  obtain ⟨commands, hcommands, hstore⟩ := (digests_handleAll hleader ms).history
  obtain ⟨commands', hcommands', hstore'⟩ := (digests_handleAll hleader' ms').history
  rw [hexec, hsame, hcommands', List.map_inj_right (by simp)] at hcommands
  exact ⟨hexec, by rw [hstore, hstore', hcommands]⟩

end Replica

end WitnessReplication
