import Mathlib.Data.List.Perm.Basic
import WitnessReplication.Proofs.Host.Notifying
import WitnessReplication.Proofs.Host.Scheduling
import WitnessReplication.Proofs.Tables

/-!
# Settling ends

The looks that a host grants its tasks to settle are enough, where it has no tasks but those of
slots: when it has settled, no task is in the queue (`Running.ready_settle`).

Each task in the queue costs a look, and a look may wake other tasks. What it may cost in all is
bounded by the events in mailboxes and by the slots under way, its `Host.weight`: handling an event
opens at most one slot, and gives it a task that is woken; or its slot executes, and is no longer
under way, and the wake-up for the next slot comes in place of the event.
-/

namespace WitnessReplication

namespace Replica

variable {r : Replica} {slot : Slot} {s : LiveSlot} {event : Event}

/-- The slots that effects open. -/
def openings (effects : List Effect) : Nat := effects.countP fun effect =>
  match effect with
  | .opened _ => true
  | _ => false

theorem openings_append (effects effects' : List Effect) :
    openings (effects ++ effects') = openings effects + openings effects' :=
  List.countP_append

theorem openings_eq_zero {effects : List Effect} (h : ∀ slot, .opened slot ∉ effects) :
    openings effects = 0 := by
  refine List.countP_eq_zero.2 fun effect hmem => ?_
  cases effect with
  | opened slot => exact absurd hmem (h slot)
  | _ => simp

theorem openings_apply : openings (r.apply slot s event).2.2 = 0 := by
  refine openings_eq_zero fun other hmem => ?_
  rcases effects_apply hmem with heq | ⟨_, heq⟩ | ⟨_, -, ⟨_, heq⟩ | ⟨_, heq⟩⟩ <;> cases heq

theorem openings_execute {id : CommandId} {c : Command} :
    openings (r.execute slot s id c).2 = 0 := by
  refine openings_eq_zero fun other hmem => ?_
  rcases effects_execute hmem with heq | heq | hmem
  · cases heq
  · cases heq
  · obtain ⟨-, heq | ⟨_, heq⟩⟩ := mem_answers hmem <;> cases heq

/-- A slot that awaits another opens that at most. -/
theorem size_await : openings (r.await slot).2 ≤ 1 ∧
    (r.await slot).1.live.size ≤ r.live.size + 1 := by
  constructor
  · simp only [await, openSlot]
    split
    · exact Nat.zero_le _
    · exact Nat.le_refl _
  · have hlive : (r.await slot).1.live =
        r.live.insert slot { (r.live[slot]?).getD {} with awaited := true } := by
      apply Std.ExtTreeMap.ext_getElem?
      intro other
      simp only [live_await, Std.ExtTreeMap.getElem?_insert, Std.compare_eq_iff_eq]
    rw [hlive]
    exact Std.ExtTreeMap.size_insert_le

/-- Writing the record of a slot that is under way. -/
theorem size_putSlot {s' : LiveSlot} (hs : r.live[slot]? = some s) :
    (r.putSlot slot s').live.size = r.live.size := by
  have hmem : slot ∈ r.live := Std.ExtTreeMap.mem_iff_isSome_getElem?.2 (by simp [hs])
  rw [live_putSlot, Std.ExtTreeMap.size_insert, if_pos (Std.ExtTreeMap.contains_iff_mem.2 hmem)]

/-- A slot that handles an event opens one other at most. If it executes, it opens none, and it is
no longer under way. -/
theorem size_process (hs : r.live[slot]? = some s) (event : Event) :
    ((r.process slot s event).2.2 = .pending ∧ openings (r.process slot s event).2.1 ≤ 1 ∧
        (r.process slot s event).1.live.size ≤ r.live.size + 1) ∨
      ∃ awaited, (r.process slot s event).2.2 = .executed awaited ∧
        openings (r.process slot s event).2.1 = 0 ∧
        (r.process slot s event).1.live.size + 1 = r.live.size := by
  unfold Replica.process
  split
  · exact .inl ⟨rfl, Nat.zero_le _, Nat.le_succ _⟩
  · have hlive := live_apply r slot s event
    have hsize : ((r.apply slot s event).1.putSlot slot (r.apply slot s event).2.1).live.size =
        r.live.size := by
      rw [size_putSlot (s := s) (by rw [hlive, hs]), hlive]
    have hput : ((r.apply slot s event).1.putSlot slot (r.apply slot s event).2.1).live[slot]? =
        some (r.apply slot s event).2.1 := by simp
    simp only [openings_append, openings_apply, Nat.zero_add]
    rw [← hsize]
    generalize (r.apply slot s event).1.putSlot slot (r.apply slot s event).2.1 = taken at *
    unfold Replica.advance
    split
    · exact .inl ⟨rfl, Nat.zero_le _, Nat.le_succ _⟩
    · dsimp only
      split
      · exact .inl ⟨rfl, size_await⟩
      · refine .inr ⟨_, rfl, openings_execute, ?_⟩
        rw [live_dropSlot, live_execute, Tables.erase_insert_self]
        have herase := Tables.size_erase hput
        omega

end Replica

namespace Host

open Replica (Effect Event LiveSlot Step openings)
open Running (requests)

/-- A host has no tasks but those of slots, and nobody waits to be notified. -/
structure Lone (h : Host) : Prop where
  weak : h.weak = ∅
  unbatched : h.batcher = none
  commits : ∀ slot, h.commits.subscribers slot = []
  executions : ∀ slot, h.executions.subscribers slot = []
  weakDeps : ∀ client, h.weakDeps.subscribers client = []

/-- The events in mailboxes. -/
def load (mailboxes : Std.ExtTreeMap Slot (List Event)) : Nat :=
  (mailboxes.toList.map fun mailbox => mailbox.2.length).foldr (· + ·) 0

/-- What the events in mailboxes and the slots under way may cost. -/
def weight (h : Host) : Nat := 4 * load h.mailboxes + 2 * h.replica.live.size

/-- A host without tasks but those of slots gets from one state to another. The tasks that are to be
woken count, and what the host has left to do weighs more by `gain` at most. -/
structure Spends (gain : Int) (h : Host) (signals : List Signal) (h' : Host) : Prop where
  lone : h'.Lone
  weight : ((requests signals).length + h'.weight : Int) ≤ h.weight + gain

variable {h h' h'' : Host} {slot : Slot} {s : LiveSlot} {event : Event} {events queue : List Event}
variable {effects : List Effect} {r : Replica} {signals signals' : List Signal} {gain gain' : Int}

theorem requests_append (signals signals' : List Signal) :
    requests (signals ++ signals') = requests signals ++ requests signals' :=
  List.filterMap_append

theorem load_erase (mailboxes : Std.ExtTreeMap Slot (List Event)) (slot : Slot) :
    load (mailboxes.erase slot) + ((mailboxes[slot]?).getD []).length = load mailboxes := by
  cases hbox : mailboxes[slot]? with
  | none => simp [Tables.erase_of_not_mem hbox]
  | some queue =>
      have hlengths := (Tables.toList_erase hbox).map fun mailbox => mailbox.2.length
      have hsum := hlengths.foldr_eq (f := (· + ·)) 0
      rw [load, load, hsum, List.map_cons, List.foldr_cons, Nat.add_comm]
      rfl

theorem load_insert (mailboxes : Std.ExtTreeMap Slot (List Event)) (slot : Slot)
    (queue : List Event) : load (mailboxes.insert slot queue) +
      ((mailboxes[slot]?).getD []).length = load mailboxes + queue.length := by
  have hinserted := load_erase (mailboxes.insert slot queue) slot
  rw [Tables.erase_insert_self, Std.ExtTreeMap.getElem?_insert_self, Option.getD_some] at hinserted
  have herased := load_erase mailboxes slot
  omega

namespace Spends

theorem refl (hl : h.Lone) : h.Spends 0 [] h := ⟨hl, by simp [requests]⟩

theorem mono (hs : h.Spends gain signals h') (hgain : gain ≤ gain') : h.Spends gain' signals h' :=
  ⟨hs.lone, by have := hs.weight; omega⟩

theorem trans (hs : h.Spends gain signals h') (hs' : h'.Spends gain' signals' h'') :
    h.Spends (gain + gain') (signals ++ signals') h'' := by
  refine ⟨hs'.lone, ?_⟩
  have hfirst := hs.weight
  have hsecond := hs'.weight
  rw [requests_append, List.length_append]
  push_cast
  omega

end Spends

/-! ### Carrying out effects -/

/-- A slot that is opened costs a look if it gets a task. Nothing else does. -/
theorem Lone.emit (hl : h.Lone) (effect : Effect) :
    (h.emit effect).1.Lone ∧ (requests (h.emit effect).2).length ≤ openings [effect] ∧
      load (h.emit effect).1.mailboxes ≤ load h.mailboxes := by
  cases effect with
  | broadcast m => exact ⟨hl, Nat.le_refl _, Nat.le_refl _⟩
  | tell client m => exact ⟨hl, Nat.le_refl _, Nat.le_refl _⟩
  | accept a =>
      simp only [Host.emit, batchOrSend, hl.unbatched]
      exact ⟨hl, Nat.le_refl _, Nat.le_refl _⟩
  | acceptAck a =>
      simp only [Host.emit, batchOrSend, hl.unbatched]
      exact ⟨hl, Nat.le_refl _, Nat.le_refl _⟩
  | opened slot =>
      have hload := load_insert h.mailboxes slot []
      rw [List.length_nil] at hload
      simp only [Host.emit]
      split
      · exact ⟨⟨hl.weak, hl.unbatched, hl.commits, hl.executions, hl.weakDeps⟩,
          Nat.le_refl _, Nat.le.intro hload⟩
      · exact ⟨hl, Nat.zero_le _, Nat.le_refl _⟩
  | committed slot =>
      refine ⟨{ hl with commits := fun other => ?_ }, ?_, Nat.le_refl _⟩
      · rw [Host.emit, Registry.subscribers_close]
        split
        · rfl
        · exact hl.commits other
      · simp [Host.emit, Registry.close, hl.commits, wakeAll, requests]
  | executed slot =>
      refine ⟨{ hl with executions := fun other => ?_ }, ?_, Nat.le_refl _⟩
      · rw [Host.emit, Registry.subscribers_close]
        split
        · rfl
        · exact hl.executions other
      · simp [Host.emit, Registry.close, hl.executions, wakeAll, requests]
  | weakExecuted client =>
      refine ⟨{ hl with weakDeps := fun other => ?_ }, ?_, Nat.le_refl _⟩
      · rw [Host.emit, Registry.subscribers_close]
        split
        · rfl
        · exact hl.weakDeps other
      · simp [Host.emit, Registry.close, hl.weakDeps, wakeAll, requests]

theorem Lone.emitAll (hl : h.Lone) (effects : List Effect) :
    (h.emitAll effects).1.Lone ∧ (requests (h.emitAll effects).2).length ≤ openings effects ∧
      load (h.emitAll effects).1.mailboxes ≤ load h.mailboxes := by
  induction effects generalizing h with
  | nil => exact ⟨hl, Nat.le_refl _, Nat.le_refl _⟩
  | cons effect effects ih =>
      obtain ⟨hfirst, hlooks, hload⟩ := hl.emit effect
      obtain ⟨hlast, hlooks', hload'⟩ := ih hfirst
      refine ⟨hlast, ?_, Nat.le_trans hload' hload⟩
      have hsplit := Replica.openings_append [effect] effects
      rw [List.singleton_append] at hsplit
      simp only [Host.emitAll, requests_append, List.length_append]
      omega

theorem Lone.replace (hl : h.Lone) (r : Replica) : ({ h with replica := r } : Host).Lone :=
  ⟨hl.weak, hl.unbatched, hl.commits, hl.executions, hl.weakDeps⟩

/-- Replacing the replica costs what its effects do, and the slots that are under way then. -/
theorem Lone.adopt (hl : h.Lone)
    (hgain : (openings effects + 2 * r.live.size : Int) ≤ 2 * h.replica.live.size + gain) :
    h.Spends gain (h.adopt r effects).2 (h.adopt r effects).1 := by
  obtain ⟨hlone, hlooks, hload⟩ := (hl.replace r).emitAll effects
  have hload' : load (h.adopt r effects).1.mailboxes ≤ load h.mailboxes := hload
  have hlooks' : (requests (h.adopt r effects).2).length ≤ openings effects := hlooks
  refine ⟨hlone, ?_⟩
  simp only [Host.weight, replica_adopt]
  omega

/-! ### Handling events -/

/-- What handling an event gains at most: a slot under way, and a look of its task. -/
theorem Lone.process (hl : h.Lone) (hs : h.replica.live[slot]? = some s) (event : Event) :
    (h.replica.process slot s event).2.2 = .pending ∧
        h.Spends 3 (h.adopt (h.replica.process slot s event).1 (h.replica.process slot s event).2.1).2
          (h.adopt (h.replica.process slot s event).1 (h.replica.process slot s event).2.1).1 ∨
      ∃ awaited, (h.replica.process slot s event).2.2 = .executed awaited ∧
        h.Spends (-2)
          (h.adopt (h.replica.process slot s event).1 (h.replica.process slot s event).2.1).2
          (h.adopt (h.replica.process slot s event).1 (h.replica.process slot s event).2.1).1 := by
  rcases Replica.size_process hs event with ⟨houtcome, hopened, hsize⟩ |
    ⟨awaited, houtcome, hopened, hsize⟩
  · exact .inl ⟨houtcome, hl.adopt (by omega)⟩
  · exact .inr ⟨awaited, houtcome, hl.adopt (by omega)⟩

/-- An event that is put in a mailbox costs the look of the task that reads it. -/
theorem Lone.enqueue (hl : h.Lone) (hbox : h.mailboxes[slot]? = some queue) (event : Event) :
    h.Spends 5 (h.enqueue slot queue event).2 (h.enqueue slot queue event).1 := by
  refine ⟨⟨hl.weak, hl.unbatched, hl.commits, hl.executions, hl.weakDeps⟩, ?_⟩
  have hload := load_insert h.mailboxes slot (queue ++ [event])
  rw [hbox, Option.getD_some, List.length_append, List.length_singleton] at hload
  simp only [Host.weight, Host.enqueue]
  have hrequests : (requests [Signal.request (.wake (.slot slot))]).length = 1 := rfl
  rw [hrequests]
  omega

theorem Lone.wake (hl : h.Lone) (slot : Slot) : h.Spends 5 (h.wake slot).2 (h.wake slot).1 := by
  fun_induction Host.wake h slot with
  | case1 h slot hnone => exact (Spends.refl hl).mono (by omega)
  | case2 h slot s hs queue hbox => exact hl.enqueue hbox .wake
  | case3 h slot s hs hbox r effects hp adopted rest ih =>
      have hprocess := hl.process hs .wake
      rw [hp] at hprocess
      obtain ⟨hpending, -⟩ | ⟨-, -, hspends⟩ := hprocess
      · cases hpending
      · exact (hspends.trans (ih hspends.lone)).mono (by omega)
  | case4 h slot s hs hbox r effects hp =>
      have hprocess := hl.process hs .wake
      rw [hp] at hprocess
      obtain ⟨-, hspends⟩ | ⟨-, -, hspends⟩ := hprocess <;> exact hspends.mono (by omega)
  | case5 h slot s hs hbox r effects hp =>
      have hprocess := hl.process hs .wake
      rw [hp] at hprocess
      obtain ⟨-, hspends⟩ | ⟨-, -, hspends⟩ := hprocess <;> exact hspends.mono (by omega)

theorem Lone.wakeIf (hl : h.Lone) (awaited : Bool) (slot : Slot) :
    h.Spends 5 (if awaited then h.wake slot else (h, [])).2
      (if awaited then h.wake slot else (h, [])).1 := by
  cases awaited with
  | false => exact (Spends.refl hl).mono (by omega)
  | true => exact hl.wake slot

theorem Lone.route (hl : h.Lone) (slot : Slot) (event : Event) :
    (h.route slot event).1.Lone := by
  unfold Host.route
  split
  · exact hl
  · rename_i r s opened hclaim
    have hclaimed : (h.adopt r opened).1.Lone := ((hl.replace r).emitAll opened).1
    obtain ⟨-, hs, -⟩ : event.isStale r.config.ballot = false ∧ r.live[slot]? = some s ∧
      Replica.Changes (fun _ _ => False) h.replica opened r := Replica.changes_claim hclaim
    have hs' : (h.adopt r opened).1.replica.live[slot]? = some s := by rwa [replica_adopt]
    dsimp only
    split
    · rename_i queue hbox
      exact (hclaimed.enqueue hbox event).lone
    · have hprocess := hclaimed.process hs' event
      split
      · rename_i houtcome
        rw [houtcome] at hprocess
        obtain ⟨-, hspends⟩ | ⟨-, -, hspends⟩ := hprocess <;>
          exact (hspends.lone.wake (slot + 1)).lone
      · obtain ⟨-, hspends⟩ | ⟨-, -, hspends⟩ := hprocess <;> exact hspends.lone

/-- Serving events gains less than the events weighed. -/
theorem Lone.serve (hl : h.Lone) (slot : Slot) (events : List Event) :
    h.Spends (3 * events.length) (h.serve slot events).2 (h.serve slot events).1 := by
  induction events generalizing h with
  | nil => exact .refl hl
  | cons event events ih =>
      have hlength : ((event :: events).length : Int) = events.length + 1 := rfl
      unfold Host.serve
      cases hs : h.replica.live[slot]? with
      | none => exact (Spends.refl hl).mono (by omega)
      | some s =>
          have hprocess := hl.process hs event
          dsimp only
          generalize h.replica.process slot s event = processed at *
          obtain ⟨r, effects, outcome⟩ := processed
          dsimp only at hprocess ⊢
          generalize h.adopt r effects = adopted at *
          obtain ⟨rfl, hspends⟩ | ⟨awaited, rfl, hspends⟩ := hprocess
          · exact (hspends.trans (ih hspends.lone)).mono (by omega)
          · have hwake := hspends.lone.wakeIf awaited (slot + 1)
            dsimp only
            generalize (if awaited then adopted.1.wake (slot + 1) else (adopted.1, [])) = last at *
            have hclosed : adopted.1.Spends 5 last.2
                { last.1 with mailboxes := last.1.mailboxes.erase slot } := by
              obtain ⟨hlone, hweight⟩ := hwake
              have hload := load_erase last.1.mailboxes slot
              refine ⟨⟨hlone.weak, hlone.unbatched, hlone.commits, hlone.executions,
                hlone.weakDeps⟩, ?_⟩
              simp only [Host.weight] at hweight ⊢
              omega
            exact (hspends.trans hclosed).mono (by omega)

/-- A look of the task of a slot costs no more than the events in the mailbox weigh. -/
theorem Lone.lookSlot (hl : h.Lone) (slot : Slot) :
    h.Spends 0 (h.lookSlot slot).2 (h.lookSlot slot).1 := by
  unfold Host.lookSlot
  split
  · exact .refl hl
  · rename_i queue hbox
    have hl' : ({ h with mailboxes := h.mailboxes.insert slot [] } : Host).Lone :=
      ⟨hl.weak, hl.unbatched, hl.commits, hl.executions, hl.weakDeps⟩
    obtain ⟨hlone, hweight⟩ := hl'.serve slot queue
    have hload := load_insert h.mailboxes slot []
    rw [hbox, Option.getD_some, List.length_nil] at hload
    refine ⟨hlone, ?_⟩
    simp only [Host.weight] at hweight ⊢
    omega

/-- Other tasks have nothing to do. -/
theorem Lone.look_eq (hl : h.Lone) (now : Nat) {task : Task} (hslot : ∀ slot, task ≠ .slot slot) :
    h.look now task = (h, []) := by
  cases task with
  | slot slot => exact absurd rfl (hslot slot)
  | weak number => simp only [Host.look, lookWeak, hl.weak, Std.ExtTreeMap.getElem?_empty]
  | flush => simp only [Host.look, lookFlush, hl.unbatched]

/-- A look of any task costs no more than it takes off. -/
theorem Lone.look (hl : h.Lone) (now : Nat) (task : Task) :
    h.Spends 0 (h.look now task).2 (h.look now task).1 := by
  by_cases hslot : ∃ slot, task = .slot slot
  · obtain ⟨slot, rfl⟩ := hslot
    exact hl.lookSlot slot
  · rw [hl.look_eq now (not_exists.1 hslot)]
    exact .refl hl

theorem Lone.performAll (hl : h.Lone) (steps : List Step) : (h.performAll steps).1.Lone := by
  induction steps generalizing h with
  | nil => exact hl
  | cons step steps ih =>
      cases step with
      | emit effect => exact ih (hl.emit effect).1
      | route slot event => exact ih (hl.route slot event)

/-! ### Running tasks -/

namespace Running

variable {r : Run Running Task}

/-- As many looks are enough as tasks are in the queue and as what the host has to do weighs. -/
theorem ready_settleWithin (hl : r.state.host.Lone) {bound : Nat}
    (hbound : r.clock.ready.length + r.state.host.weight ≤ bound) :
    (r.settleWithin program bound).clock.ready = [] := by
  induction bound generalizing r with
  | zero =>
      have hzero : r.clock.ready.length = 0 := by omega
      exact List.eq_nil_of_length_eq_zero hzero
  | succ bound ih =>
      unfold Run.settleWithin
      split
      · assumption
      · rename_i task ready hready
        have hlook := hl.look r.clock.now task
        refine ih hlook.lone ?_
        have hgranted := Clock.length_ready_grantAll { r.clock with ready := ready }
          (requests (r.state.host.look r.clock.now task).2)
        have hweight := hlook.weight
        rw [hready, List.length_cons] at hbound
        simp only [Run.put, program, note] at hgranted ⊢
        omega

/-- The looks that a host grants its tasks to settle are enough. -/
theorem ready_settle (hl : r.state.host.Lone) : (r.settle program).clock.ready = [] := by
  refine ready_settleWithin hl ?_
  have hweak : r.state.host.weak.size = 0 := by
    rw [hl.weak]
    rfl
  have hload : load r.state.host.mailboxes =
      (r.state.host.mailboxes.toList.map fun mailbox => mailbox.2.length).foldr (· + ·) 0 := rfl
  simp only [program, effort, hweak, ← hload, Host.weight]
  omega

end Running

end Host

end WitnessReplication
