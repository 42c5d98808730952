import WitnessReplication.Proofs.SlotTable
import WitnessReplication.Proofs.Tables

/-!
# The delivery loop

A replica that serves its slots on the spot hands an event on in a loop: the slot at hand takes its
event, and if it executes and the slot after it was waiting, the loop goes on there (`Replica.pass`,
`Replica.Loops`). A pass may put slots under way, but then it is the last one. A pass that is not
the last takes its own slot out, and leads to the slot after it. The loop therefore ends: in any
state that a replica can be in, it makes at most two passes more than slots are under way at its
start, and executes at most one slot more, none of them twice (`Replica.route_ends`).

## Implementation notes

`Replica.Reachable` also has the states amid a message, as events are handed on while a message is
handled. `Replica.Loops` does not mention `Replica.wake`, the recursion that carries the loop out.
Only the next slot ever waits for a slot, so that the mark of a slot tells where the loop goes on.
-/

namespace WitnessReplication.Replica

/-! ### Passes -/

/-- One pass of the loop: the slot takes its event, and the slot after it is next if this one
executes and was awaited. -/
def pass (r : Replica) (slot : Slot) (event : Event) : Replica × List Effect × Option Slot :=
  match r.claim slot event with
  | none => (r, [], none)
  | some (r, s, opened) =>
    let processed := r.process slot s event
    (processed.1, opened ++ processed.2.1,
      if processed.2.2 = .executed true then some (slot + 1) else none)

/-- The loop, entered with an event for a slot, makes its passes at the slots that are listed, and
ends. -/
inductive Loops : Replica → Slot → Event → List Slot → Replica → List Effect → Prop
  | ends {r r' : Replica} {slot : Slot} {event : Event} {effects : List Effect}
      (h : r.pass slot event = (r', effects, none)) : Loops r slot event [slot] r' effects
  | goesOn {r r' r'' : Replica} {slot next : Slot} {event : Event} {slots : List Slot}
      {effects effects' : List Effect} (h : r.pass slot event = (r', effects, some next))
      (rest : Loops r' next .wake slots r'' effects') :
      Loops r slot event (slot :: slots) r'' (effects ++ effects')

/-- The states that a replica comes to when it takes up messages, puts weak commands in order and
hands events to slots, which it serves on the spot. -/
inductive Reachable (id : ReplicaId) (config : Config) : Replica → Prop
  | initial : Reachable id config (initial id config)
  | responds {r : Replica} (h : Reachable id config r) (m : ReplicaMessage) :
      Reachable id config (r.respond m).replica
  | orders {r : Replica} (h : Reachable id config r) (w : WeakCommand) (reply : Bool) :
      Reachable id config (r.orderWeak w reply).1
  | routes {r : Replica} (h : Reachable id config r) (slot : Slot) (event : Event) :
      Reachable id config (r.route slot event).1

variable {id : ReplicaId} {config : Config} {r r' : Replica} {slot : Slot} {s : LiveSlot}
variable {next? : Option Slot} {event : Event} {slots : List Slot} {effects : List Effect}

/-! ### What a pass does -/

/-- The slots that an outcome reports. -/
def Outcome.executions (slot : Slot) : Outcome → List Slot
  | .pending => []
  | .executed _ => [slot]

theorem executions_advance (r : Replica) (slot : Slot) (s : LiveSlot) :
    (r.advance slot s).2.1.filterMap Effect.executed? =
      (r.advance slot s).2.2.executions slot := by
  unfold advance
  split
  · rfl
  · dsimp only
    split
    · simp only [await, openSlot]
      split <;> rfl
    · exact executions_execute ..

/-- A slot that handles an event reports its own execution, if it executes. -/
theorem executions_process (r : Replica) (slot : Slot) (s : LiveSlot) (event : Event) :
    (r.process slot s event).2.1.filterMap Effect.executed? =
      (r.process slot s event).2.2.executions slot := by
  unfold process
  split
  · rfl
  · dsimp only
    rw [List.filterMap_append, executions_apply, executions_advance, List.nil_append]

/-- A slot that executes is taken out of those under way, and nothing else happens to them. -/
theorem live_process_executed {awaited : Bool}
    (h : r.process slot s event = (r', effects, .executed awaited)) :
    r'.live = r.live.erase slot := by
  unfold process at h
  split at h
  · simp at h
  · simp only [Prod.mk.injEq] at h
    rw [live_advance_executed (Prod.ext h.1 (Prod.ext rfl h.2.2)), live_putSlot, live_apply,
      Tables.erase_insert_self, Tables.erase_insert_self]

/-- Being woken opens no slot. -/
theorem claim_wake (r : Replica) (slot : Slot) :
    r.claim slot .wake = (r.live[slot]?).map fun s => (r, s, []) := by
  unfold claim
  rw [if_neg (by simp [Event.isStale, Event.ballot?])]
  cases r.live[slot]? <;> simp

/-- A claim reports no execution and puts at most its own slot under way. -/
theorem claim_spec {opened : List Effect} (h : r.claim slot event = some (r', s, opened)) :
    opened.filterMap Effect.executed? = [] ∧ r'.live.erase slot = r.live.erase slot ∧
      (slot ∈ r.live ∨ event ≠ .wake) := by
  have hwoken : slot ∈ r.live ∨ event ≠ .wake := by
    refine or_iff_not_imp_right.2 fun hwake => ?_
    rw [not_not.1 hwake, claim_wake] at h
    obtain ⟨s', hs', -⟩ := Option.map_eq_some_iff.1 h
    exact Std.ExtTreeMap.mem_iff_isSome_getElem?.2 (by simp [hs'])
  obtain ⟨-, ⟨rfl, -, rfl⟩ | ⟨rfl, -, -, -, rfl⟩⟩ := claim_cases h
  · exact ⟨rfl, rfl, hwoken⟩
  · exact ⟨rfl, by rw [live_putSlot, Tables.erase_insert_self], hwoken⟩

/-- A pass executes nothing and is the last, or executes its slot, takes it out of those under way
and leads to the next slot or nowhere. A slot that is only woken was under way before. -/
theorem pass_cases (h : r.pass slot event = (r', effects, next?)) :
    (effects.filterMap Effect.executed? = [] ∧ next? = none) ∨
      effects.filterMap Effect.executed? = [slot] ∧ (∀ next ∈ next?, next = slot + 1) ∧
        r'.live = r.live.erase slot ∧ (slot ∈ r.live ∨ event ≠ .wake) := by
  unfold pass at h
  split at h
  · obtain ⟨-, rfl, rfl⟩ : r = r' ∧ [] = effects ∧ none = next? := by simpa using h
    exact .inl ⟨rfl, rfl⟩
  · rename_i claimed s opened hclaim
    obtain ⟨hopened, herase, hwoken⟩ := claim_spec hclaim
    have hreports := executions_process claimed slot s event
    rcases hprocess : claimed.process slot s event with ⟨r₁, sent, outcome⟩
    rw [hprocess] at h hreports
    obtain ⟨rfl, rfl, rfl⟩ : r₁ = r' ∧ opened ++ sent = effects ∧
        (if outcome = .executed true then some (slot + 1) else none) = next? := by simpa using h
    rw [List.filterMap_append, hopened, hreports, List.nil_append]
    cases outcome with
    | pending => exact .inl ⟨rfl, rfl⟩
    | executed awaited =>
        refine .inr ⟨rfl, fun next hnext => ?_, ?_, hwoken⟩
        · split at hnext
          · exact (Option.mem_some.1 hnext).symm
          · simp at hnext
        · rw [live_process_executed hprocess, herase]

/-! ### What the loop does -/

namespace Loops

/-- The passes are at one slot after another. -/
theorem slots_eq (h : r.Loops slot event slots r' effects) :
    slots = List.range' slot slots.length := by
  induction h with
  | ends h => rfl
  | goesOn h rest ih =>
      obtain ⟨-, hnone⟩ | ⟨-, hnext, -⟩ := pass_cases h
      · simp at hnone
      · rw [hnext _ rfl] at ih
        rw [List.length_cons, List.range'_succ, ← ih]

/-- All passes but the last execute their slots. -/
theorem executions (h : r.Loops slot event slots r' effects) :
    ∃ n, effects.filterMap Effect.executed? = List.range' slot n ∧ slots.length ≤ n + 1 := by
  induction h with
  | ends h =>
      obtain ⟨hnone, -⟩ | ⟨hone, -⟩ := pass_cases h
      · exact ⟨0, hnone, Nat.le_refl 1⟩
      · exact ⟨1, hone, Nat.le_succ 1⟩
  | goesOn h rest ih =>
      obtain ⟨n, hslots, hlength⟩ := ih
      obtain ⟨-, hnone⟩ | ⟨hone, hnext, -⟩ := pass_cases h
      · simp at hnone
      · refine ⟨n + 1, ?_, Nat.succ_le_succ hlength⟩
        rw [List.filterMap_append, hone, hslots, hnext _ rfl, List.range'_succ]
        rfl

/-- A slot that executes was under way when the loop began, or has been opened by its event. -/
theorem mem_live (h : r.Loops slot event slots r' effects) :
    ∀ other ∈ effects.filterMap Effect.executed?,
      other ∈ r.live ∨ other = slot ∧ event ≠ .wake := by
  induction h with
  | ends h =>
      intro other hother
      obtain ⟨hnone, -⟩ | ⟨hone, -, -, hwoken⟩ := pass_cases h
      · simp [hnone] at hother
      · rw [hone, List.mem_singleton] at hother
        subst hother
        exact hwoken.imp_right fun hevent => ⟨rfl, hevent⟩
  | goesOn h rest ih =>
      intro other hother
      obtain ⟨-, hnone⟩ | ⟨hone, -, hlive, hwoken⟩ := pass_cases h
      · simp at hnone
      · rw [List.filterMap_append, hone, List.singleton_append, List.mem_cons] at hother
        rcases hother with hsame | hother
        · subst hsame
          exact hwoken.imp_right fun hevent => ⟨rfl, hevent⟩
        · -- a slot that is woken later has been there all along
          have hrest := (ih other hother).resolve_right fun hopened => hopened.2 rfl
          rw [hlive] at hrest
          exact .inl (Std.ExtTreeMap.mem_of_mem_erase hrest)

theorem nodup_executions (h : r.Loops slot event slots r' effects) :
    (effects.filterMap Effect.executed?).Nodup := by
  obtain ⟨n, hslots, -⟩ := h.executions
  exact hslots ▸ List.nodup_range'

/-- At most one slot executes that was not under way when the loop began. -/
theorem length_executions (h : r.Loops slot event slots r' effects) :
    (effects.filterMap Effect.executed?).length ≤ r.live.size + 1 := by
  have hsubset : effects.filterMap Effect.executed? ⊆ slot :: r.live.keys := by
    intro other hother
    rcases h.mem_live other hother with hlive | ⟨rfl, -⟩
    · exact List.mem_cons_of_mem _ (Std.ExtTreeMap.mem_keys.2 hlive)
    · exact List.mem_cons_self
  have hle := (List.subperm_of_subset h.nodup_executions hsubset).length_le
  rwa [List.length_cons, Std.ExtTreeMap.length_keys] at hle

end Loops

/-- Waking a slot makes the passes of the loop. -/
theorem loops_wake (r : Replica) (slot : Slot) :
    ∃ slots, r.Loops slot .wake slots (r.wake slot).1 (r.wake slot).2 := by
  fun_induction Replica.wake r slot with
  | case1 r slot hnone =>
      exact ⟨[slot], .ends (by simp [pass, claim_wake, hnone])⟩
  | case2 r slot s hs r' effects hp rest ih =>
      obtain ⟨slots, hrest⟩ := ih
      exact ⟨slot :: slots, .goesOn (by simp [pass, claim_wake, hs, hp]) hrest⟩
  | case3 r slot s hs r' effects hp =>
      exact ⟨[slot], .ends (by simp [pass, claim_wake, hs, hp])⟩
  | case4 r slot s hs r' effects hp =>
      exact ⟨[slot], .ends (by simp [pass, claim_wake, hs, hp])⟩

/-- Handing an event to a slot makes the passes of the loop. -/
theorem loops_route (r : Replica) (slot : Slot) (event : Event) :
    ∃ slots, r.Loops slot event slots (r.route slot event).1 (r.route slot event).2 := by
  unfold route
  split
  · rename_i hnone
    exact ⟨[slot], .ends (by simp [pass, hnone])⟩
  · rename_i claimed s opened hclaim
    dsimp only
    split
    · rename_i hwakes
      obtain ⟨slots, hrest⟩ := loops_wake (claimed.process slot s event).1 (slot + 1)
      exact ⟨slot :: slots, .goesOn (by simp [pass, hclaim, hwakes]) hrest⟩
    · rename_i hwakes
      exact ⟨[slot], .ends (by simpa [pass, hclaim] using hwakes)⟩

/-! ### Reachable states -/

/-- Putting a weak command in order is among what a replica notes. -/
theorem noted_orderWeak (r : Replica) (w : WeakCommand) (reply : Bool) :
    r.Noted none (r.orderWeak w reply).1 := by
  have hassign : r.Noted none (r.assign w.id w.command false).1 := .assign ..
  unfold orderWeak
  split <;> simp_all

namespace Reachable

theorem charted (h : Reachable id config r) : r.Charted := by
  induction h with
  | initial => exact charted_initial id config
  | responds h m ih => exact ((noted_respond _ m).progresses ih).charted
  | orders h w reply ih => exact ((noted_orderWeak _ w reply).progresses ih).charted
  | routes h slot event ih => exact (ih.route slot event).charted

theorem performAll (h : Reachable id config r) (steps : List Step) :
    Reachable id config (r.performAll steps).1 := by
  induction steps generalizing r with
  | nil => exact h
  | cons step steps ih =>
      cases step with
      | emit e => exact ih h
      | route slot event => exact ih (h.routes slot event)

/-- The states between messages are reachable. -/
theorem handle (h : Reachable id config r) (m : ReplicaMessage) :
    Reachable id config (r.handle m).1 := by
  have hdone := (h.responds m).performAll (r.respond m).steps
  unfold Replica.handle
  dsimp only
  split
  · exact hdone
  · rename_i w hweak
    have hordered := hdone.orders w
      ((r.respond m).replica.performAll (r.respond m).steps).1.config.variant.repliesAfterExecute
    dsimp only [performWeak]
    split
    · simp_all
    · rename_i ordered _ steps hw
      rw [hw] at hordered
      exact hordered.performAll steps

theorem handleAll (h : Reachable id config r) (ms : List ReplicaMessage) :
    Reachable id config (r.handleAll ms) := by
  induction ms generalizing r with
  | nil => exact h
  | cons m ms ih => exact ih (h.handle m)

end Reachable

/-- The delivery loop ends, whatever event is handed to whatever slot of a reachable replica. It
makes its passes at one slot after another, at most two more than slots were under way. The slots
that it executes are those from where the replica was to where it gets, none of them twice. Each of
them was under way before or is the slot of the event, so that at most one more executes than were
under way. -/
theorem route_ends (h : Reachable id config r) (slot : Slot) (event : Event) :
    let after := r.route slot event
    let executed := after.2.filterMap Effect.executed?
    (∃ passes ≤ r.live.size + 2,
      r.Loops slot event (List.range' slot passes) after.1 after.2) ∧
    executed = List.range' r.executed (after.1.executed - r.executed) ∧
    executed.Nodup ∧
    (∀ other ∈ executed, other ∈ r.live ∨ other = slot) ∧
    executed.length ≤ r.live.size + 1 := by
  intro after executed
  obtain ⟨slots, hloops⟩ := r.loops_route slot event
  obtain ⟨n, hslots, hpasses⟩ := hloops.executions
  have hlength : executed.length ≤ r.live.size + 1 := hloops.length_executions
  have hn : executed.length = n := (congrArg List.length hslots).trans List.length_range'
  refine ⟨⟨slots.length, by omega, hloops.slots_eq ▸ hloops⟩,
    (h.charted.route slot event).executions, hloops.nodup_executions, fun other hother => ?_,
    hlength⟩
  exact (hloops.mem_live other hother).imp_right And.left

/-- The commits of two slots come before that of the first one. The last slot is the first to be
known, and opens the one before it. -/
def firstMissing : List ReplicaMessage :=
  [.accept ⟨4, ⟨1, 2⟩, 2, some (.get 1), false⟩, .commit ⟨4, 2⟩,
    .accept ⟨4, ⟨1, 0⟩, 0, some ⟨.put, 1, ⟨[97]⟩⟩, false⟩,
    .accept ⟨4, ⟨1, 1⟩, 1, some (.get 1), false⟩, .commit ⟨4, 1⟩]

theorem route_ends_firstMissing :
    let r := (initial 1 epochFour).handleAll firstMissing
    let after := r.route 0 (.commit ⟨4, 0⟩)
    Reachable 1 epochFour r ∧ r.live.size = 3 ∧
    (∃ passes ≤ 5, r.Loops 0 (.commit ⟨4, 0⟩) (List.range' 0 passes) after.1 after.2) ∧
    after.2.filterMap Effect.executed? = [0, 1, 2] := by
  intro r after
  have hreachable : Reachable 1 epochFour r := Reachable.initial.handleAll firstMissing
  have hsize : r.live.size = 3 := by decide +kernel
  have hbefore : r.executed = 0 := by decide +kernel
  have hafter : after.1.executed = 3 := by decide +kernel
  obtain ⟨hloops, hslots, -⟩ := route_ends hreachable 0 (.commit ⟨4, 0⟩)
  rw [hsize] at hloops
  refine ⟨hreachable, hsize, hloops, hslots.trans ?_⟩
  rw [hbefore, hafter]
  rfl

end WitnessReplication.Replica
