import Mathlib.Logic.Function.Basic
import WitnessReplication.Proofs.Replica.Effects
import WitnessReplication.Proofs.Replica.Uptake

/-!
# Views of a replica

A replica keeps records of the slots under way, and marks those that are awaited. Which slots have
a record, which are marked and how many may have a task is a matter of who serves them and when; it
does not show in anything else. The `Replica.view` of a replica leaves it out: a slot that has no
record is one about which nothing is known.

A view can do two things by itself. It absorbs an event, which changes the record of its slot but
executes nothing (`View.absorb`), and it executes the next slot (`View.execute`). Each change to a
replica does one of the two to its view, or nothing.
-/

namespace WitnessReplication

/-- The configuration under which no slot has a task. -/
def Config.inline (c : Config) : Config := { c with maxSlotTasks := 0 }

namespace Replica

/-- The record of a slot, not marked as awaited. -/
def LiveSlot.unmarked (s : LiveSlot) : LiveSlot := { s with awaited := false }

/-- A replica without its slots, and without room for tasks. -/
def bare (r : Replica) : Replica :=
  { r with
    config := r.config.inline
    live := ∅ }

/-- What matters of a replica: itself, without its slots, and what it knows of each slot. -/
@[ext] structure View where
  base : Replica
  slots : Slot → LiveSlot

/-- What matters of a replica, whoever serves its slots. -/
def view (r : Replica) : View where
  base := r.bare
  slots slot := ((r.live[slot]?).getD {}).unmarked

namespace View

/-- What an event does at its slot. -/
def uptake (v : View) (slot : Slot) (event : Event) : Uptake :=
  .ofEvent v.base.id v.base.config slot (v.slots slot) event

/-- A view of which a slot has taken an event that does this. -/
def taken (v : View) (slot : Slot) (u : Uptake) : View :=
  ⟨u.after v.base slot, Function.update v.slots slot u.record⟩

/-- Whether a slot takes an event: it has not executed and could not, and the event is of the
epoch. -/
def takes (v : View) (slot : Slot) (event : Event) : Bool :=
  !event.isStale v.base.config.ballot && decide (v.base.executed ≤ slot) &&
    (v.slots slot).executable?.isNone

/-- A slot takes an event, and executes nothing. -/
def absorb (v : View) (slot : Slot) (event : Event) : View × List Effect :=
  if v.takes slot event then
    (v.taken slot (v.uptake slot event), (v.uptake slot event).emits v.base slot)
  else (v, [])

/-- The command of the slot that is to execute next, if it can. -/
def next? (v : View) : Option (CommandId × Command) := (v.slots v.base.executed).executable?

/-- The next slot executes. -/
def execute (v : View) (id : CommandId) (c : Command) : View × List Effect :=
  let done := v.base.execute v.base.executed (v.slots v.base.executed) id c
  (⟨done.1.bare, Function.update v.slots v.base.executed {}⟩, done.2)

end View

variable {r : Replica} {slot : Slot} {s : LiveSlot}

/-- What only leaves the record of a slot as it is changes nothing. -/
theorem View.taken_self (v : View) (slot : Slot) :
    v.taken slot { record := v.slots slot } = v ∧
      ({ record := v.slots slot } : Uptake).emits v.base slot = [] := by
  refine ⟨View.ext ?_ (Function.update_eq_self ..), ?_⟩
  · simp [taken, Uptake.after]
  · simp [Uptake.emits, orderedAcks]

theorem slots_view_of_live (hs : r.live[slot]? = some s) : r.view.slots slot = s.unmarked := by
  simp [view, hs]

theorem slots_view_of_not_live (hs : r.live[slot]? = none) : r.view.slots slot = {} := by
  simp [view, hs, LiveSlot.unmarked]

/-- The room for tasks makes no difference to an event. -/
theorem Uptake.ofEvent_inline (id : ReplicaId) (config : Config) (slot : Slot) (s : LiveSlot)
    (event : Event) : ofEvent id config.inline slot s event = ofEvent id config slot s event := by
  cases event <;> rfl

/-- What leaves the record unmarked and is otherwise the same. -/
def Uptake.unmarked (u : Uptake) : Uptake := { u with record := u.record.unmarked }

/-- A mark on a record makes no difference to an event, nor does the room for tasks. -/
theorem Uptake.ofEvent_unmarked (id : ReplicaId) (config : Config) (slot : Slot) (s : LiveSlot)
    (event : Event) :
    ofEvent id config.inline slot s.unmarked event = (ofEvent id config slot s event).unmarked := by
  cases event with
  | propose p =>
      simp only [ofEvent, apply_ite unmarked]
      rfl
  | accept m =>
      simp only [ofEvent, apply_ite unmarked]
      rfl
  | acceptAck m =>
      cases hcertificate : s.certificate with
      | none => simp only [ofEvent, unmarked, LiveSlot.unmarked, hcertificate]
      | some certificate =>
          simp only [ofEvent, LiveSlot.unmarked, hcertificate, apply_ite unmarked]
          rfl
  | commit m => rfl
  | wake => rfl

/-- Writing a record changes one slot. -/
theorem view_putSlot (r : Replica) (slot : Slot) (s : LiveSlot) :
    (r.putSlot slot s).view = ⟨r.bare, Function.update r.view.slots slot s.unmarked⟩ := by
  refine View.ext rfl (funext fun other => ?_)
  change _ = Function.update r.view.slots slot s.unmarked other
  by_cases hsame : other = slot
  · subst hsame
    have hs : (r.putSlot other s).live[other]? = some s := by simp
    rw [Function.update_self, slots_view_of_live hs]
  · rw [Function.update_of_ne hsame]
    simp [view, Std.ExtTreeMap.getElem?_insert, Ne.symm hsame]

/-- A record that brings nothing new changes nothing. -/
theorem view_putSlot_of_eq (hs : s.unmarked = r.view.slots slot) :
    (r.putSlot slot s).view = r.view := by
  rw [view_putSlot, hs, Function.update_eq_self]
  rfl

/-- Opening a slot does not show. -/
theorem view_opened (hlive : r.live[slot]? = none) : (r.putSlot slot {}).view = r.view :=
  view_putSlot_of_eq (slots_view_of_not_live hlive).symm

/-- Marking a slot as awaited does not show. -/
theorem view_awaited (hs : r.live[slot]? = some s) :
    (r.putSlot slot { s with awaited := true }).view = r.view :=
  view_putSlot_of_eq (slots_view_of_live hs).symm

/-- What a slot of a replica takes, the slot takes in its view. -/
theorem view_took (hs : r.live[slot]? = some s) (event : Event) :
    ((r.apply slot s event).1.putSlot slot (r.apply slot s event).2.1).view =
      r.view.taken slot (r.view.uptake slot event) ∧
    (r.apply slot s event).2.2 = (r.view.uptake slot event).emits r.view.base slot := by
  have huptake : r.view.uptake slot event =
      (Uptake.ofEvent r.id r.config slot s event).unmarked := by
    rw [View.uptake, slots_view_of_live hs]
    exact Uptake.ofEvent_unmarked ..
  rw [apply_eq, huptake]
  refine ⟨?_, rfl⟩
  rw [view_putSlot]
  rfl

/-- A slot executes alike, whether marked or not, and whoever else is under way. -/
theorem execute_bare (r : Replica) (slot : Slot) (s : LiveSlot) (id : CommandId) (c : Command) :
    (r.bare.execute slot s.unmarked id c).1.bare = (r.execute slot s id c).1.bare ∧
      (r.bare.execute slot s.unmarked id c).2 = (r.execute slot s id c).2 := by
  have hretire := congrArg Replica.witness (r.retire_eq id r.bare rfl rfl)
  have hclear := congrArg Replica.pendingWrites (r.clearPending_eq id c r.bare rfl)
  constructor
  · rw [execute_eq, execute_eq, hretire, hclear]
    rfl
  · rw [effects_execute_eq, effects_execute_eq, execute_eq, execute_eq]
    rfl

namespace View

variable (v : View) (id : CommandId) (c : Command)

@[simp] theorem executed_execute : (v.execute id c).1.base.executed = v.base.executed + 1 := by
  simp only [execute, execute_eq]
  rfl

@[simp] theorem isLeader_execute : (v.execute id c).1.base.isLeader = v.base.isLeader := by
  simp only [execute, execute_eq]
  rfl

@[simp] theorem nextSlot_execute : (v.execute id c).1.base.nextSlot = v.base.nextSlot := by
  simp only [execute, execute_eq]
  rfl

@[simp] theorem ordered_execute : (v.execute id c).1.base.ordered = v.base.ordered := by
  simp only [execute, execute_eq]
  rfl

theorem config_execute : (v.execute id c).1.base.config = v.base.config.inline := by
  simp only [execute, execute_eq]
  rfl

/-- Executing the next slot leaves what is known of the other slots. -/
theorem slots_execute (slot : Slot) :
    (v.execute id c).1.slots slot = if slot = v.base.executed then {} else v.slots slot :=
  Function.update_apply ..

end View

/-- When the next slot of a replica executes, it does so in its view. -/
theorem view_executed (id : CommandId) (c : Command) (hs : r.live[slot]? = some s)
    (hturn : slot = r.executed) :
    ((r.execute slot s id c).1.dropSlot slot).view = (r.view.execute id c).1 ∧
      (r.execute slot s id c).2 = (r.view.execute id c).2 := by
  subst hturn
  obtain ⟨hbase, heffects⟩ := r.execute_bare r.executed s id c
  have hslot : r.view.slots r.view.base.executed = s.unmarked := slots_view_of_live hs
  simp only [View.execute, hslot]
  refine ⟨View.ext hbase.symm (funext fun other => ?_), heffects.symm⟩
  change ((((r.execute r.executed s id c).1.dropSlot r.executed).live[other]?).getD {}).unmarked =
    Function.update r.view.slots r.executed {} other
  rw [getElem?_live_executed]
  by_cases hsame : other = r.executed
  · subst hsame
    rw [if_pos rfl, Function.update_self]
    rfl
  · rw [if_neg (Ne.symm hsame), Function.update_of_ne hsame]
    rfl

end Replica

end WitnessReplication
