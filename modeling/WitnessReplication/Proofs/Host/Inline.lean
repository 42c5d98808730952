import WitnessReplication.Proofs.Host.Settling

/-!
# Hosts without room for tasks

A host that has room for no tasks of slots does what its replica does by itself: it adopts what
`Replica.handle` makes of a message, and has nothing left to run (`Running.message_inline`).
-/

namespace WitnessReplication

namespace Replica

variable {r r' : Replica} {slot : Slot} {s : LiveSlot} {effects : List Effect} {outcome : Outcome}

theorem wake_of_not_live (hnone : r.live[slot]? = none) : r.wake slot = (r, []) := by
  rw [wake]
  split
  · rfl
  · simp_all

/-- A slot that executes when it is woken, and was awaited, wakes the next one. -/
theorem wake_of_executed (hs : r.live[slot]? = some s)
    (hp : r.process slot s .wake = (r', effects, .executed true)) :
    r.wake slot = ((r'.wake (slot + 1)).1, effects ++ (r'.wake (slot + 1)).2) := by
  rw [wake]
  split
  · simp_all
  · rename_i s' hs'
    obtain rfl := Option.some.inj (hs'.symm.trans hs)
    split <;> simp_all

theorem wake_of_stays (hs : r.live[slot]? = some s)
    (hp : r.process slot s .wake = (r', effects, outcome)) (hne : outcome ≠ .executed true) :
    r.wake slot = (r', effects) := by
  rw [wake]
  split
  · simp_all
  · rename_i s' hs'
    obtain rfl := Option.some.inj (hs'.symm.trans hs)
    split <;> simp_all

theorem config_wake (r : Replica) (slot : Slot) : (r.wake slot).1.config = r.config :=
  (changes_wake r slot : Changes (fun _ _ => False) r _ _).same.2

theorem config_perform (r : Replica) (step : Step) : (r.perform step).1.config = r.config := by
  cases step with
  | emit effect => rfl
  | route slot event => exact (changes_route trivial : Changes (fun _ _ => True) r _ _).same.2

theorem config_performAll (r : Replica) (steps : List Step) :
    (r.performAll steps).1.config = r.config := by
  induction steps generalizing r with
  | nil => rfl
  | cons step steps ih => exact (ih _).trans (config_perform r step)

end Replica

namespace Host

open Replica (Changes Effect Event Step)
open Running (messages requests)

/-- No slot of a host has a task, and there is room for none. -/
structure Inline (h : Host) : Prop where
  roomless : h.replica.config.maxSlotTasks = 0
  boxless : h.mailboxes = ∅

variable {h : Host} {r : Replica} {slot : Slot} {event : Event} {effects : List Effect}
variable {m : ReplicaMessage}

theorem Inline.mailboxes_emit (hi : h.Inline) (effect : Effect) :
    (h.emit effect).1.mailboxes = ∅ := by
  cases effect with
  | accept a =>
      simp only [Host.emit, batchOrSend]
      split <;> exact hi.boxless
  | acceptAck a =>
      simp only [Host.emit, batchOrSend]
      split <;> exact hi.boxless
  | opened slot => simp [Host.emit, hi.roomless, hi.boxless]
  | _ => exact hi.boxless

theorem Inline.emit (hi : h.Inline) (effect : Effect) : (h.emit effect).1.Inline := by
  refine ⟨?_, hi.mailboxes_emit effect⟩
  rw [replica_emit]
  exact hi.roomless

theorem Inline.emitAll (hi : h.Inline) (effects : List Effect) : (h.emitAll effects).1.Inline := by
  induction effects generalizing h with
  | nil => exact hi
  | cons effect effects ih => exact ih (hi.emit effect)

theorem Inline.adopt (hi : h.Inline) (hconfig : r.config = h.replica.config)
    (effects : List Effect) : (h.adopt r effects).1.Inline := by
  have hi' : ({ h with replica := r } : Host).Inline := ⟨hconfig ▸ hi.roomless, hi.boxless⟩
  exact hi'.emitAll effects

/-! ### Serving slots on the spot -/

/-- What is done after a host has adopted something is adopted together with it. -/
theorem adopt_adopt {r' : Replica} (hr : r.config = h.replica.config) (hr' : r'.config = r.config)
    (effects effects' : List Effect) {result : Host × List Signal}
    (hresult : result = (h.adopt r effects).1.adopt r' effects') :
    (result.1, (h.adopt r effects).2 ++ result.2) = h.adopt r' (effects ++ effects') := by
  rw [hresult, adopt_append h hr hr']

/-- Waking a slot without a task is waking it in the replica. -/
theorem Inline.wake (hi : h.Inline) (slot : Slot) :
    h.wake slot = h.adopt (h.replica.wake slot).1 (h.replica.wake slot).2 := by
  fun_induction Host.wake h slot with
  | case1 h slot hnone =>
      rw [Replica.wake_of_not_live hnone]
      rfl
  | case2 h slot s hs queue hbox => simp [hi.boxless] at hbox
  | case3 h slot s hs hbox r effects hp adopted rest ih =>
      have hconfig := (Replica.changes_process_wake hs :
        Changes (fun _ _ => False) _ _ _).same.2
      rw [hp] at hconfig
      have hrest := ih (hi.adopt hconfig effects)
      rw [Replica.wake_of_executed hs hp]
      rw [replica_adopt] at hrest
      exact adopt_adopt hconfig (Replica.config_wake ..) effects _ hrest
  | case4 h slot s hs hbox r effects hp => rw [Replica.wake_of_stays hs hp (by simp)]
  | case5 h slot s hs hbox r effects hp => rw [Replica.wake_of_stays hs hp (by simp)]

/-- Routing an event where no slot has a task is routing it in the replica. -/
theorem Inline.route (hi : h.Inline) (slot : Slot) (event : Event) :
    h.route slot event = h.adopt (h.replica.route slot event).1 (h.replica.route slot event).2 := by
  unfold Host.route Replica.route
  cases hclaim : h.replica.claim slot event with
  | none => rfl
  | some claimed =>
      obtain ⟨r, s, opened⟩ := claimed
      obtain ⟨hstale, hs, hopened⟩ : event.isStale r.config.ballot = false ∧
        r.live[slot]? = some s ∧ Changes (fun _ _ => True) h.replica opened r :=
        Replica.changes_claim hclaim
      have hconfig := hopened.same.2
      have hprocessed : (r.process slot s event).1.config = r.config :=
        (Replica.changes_process hs hstale trivial : Changes (fun _ _ => True) _ _ _).same.2
      have hbox : (h.adopt r opened).1.mailboxes[slot]? = none := by
        simp [(hi.adopt hconfig opened).boxless]
      have htried := adopt_adopt hconfig hprocessed opened (r.process slot s event).2.1 rfl
      dsimp only
      rw [hbox, replica_adopt]
      dsimp only
      generalize r.process slot s event = processed at *
      obtain ⟨r', effects, outcome⟩ := processed
      dsimp only at hprocessed htried ⊢
      rcases outcome with _ | _ | _
      · exact htried
      · exact htried
      · have hwake := ((hi.adopt hconfig opened).adopt
          (hprocessed.trans (by rw [replica_adopt])) effects).wake (slot + 1)
        rw [replica_adopt] at hwake
        have hwoken := adopt_adopt (h := h) (hprocessed.trans hconfig)
          (Replica.config_wake r' (slot + 1)) (opened ++ effects) (r'.wake (slot + 1)).2 rfl
        rw [← htried] at hwoken
        dsimp only at hwoken
        rw [← hwake] at hwoken
        exact hwoken

/-- Carrying out planned steps where no slot has a task is carrying them out in the replica. -/
theorem Inline.performAll (hi : h.Inline) (steps : List Step) : h.performAll steps =
    h.adopt (h.replica.performAll steps).1 (h.replica.performAll steps).2 := by
  induction steps generalizing h with
  | nil => rfl
  | cons step steps ih =>
      have hperform : h.perform step =
          h.adopt (h.replica.perform step).1 (h.replica.perform step).2 := by
        cases step with
        | emit effect =>
            simp only [Host.perform, Replica.perform, Host.adopt, Host.emitAll, List.append_nil]
        | route slot event => exact hi.route slot event
      have hrest := ih (h := (h.perform step).1) (by
        rw [hperform]
        exact hi.adopt (Replica.config_perform _ step) _)
      rw [hperform, replica_adopt] at hrest
      simp only [Host.performAll, Replica.performAll]
      rw [hperform]
      exact adopt_adopt (Replica.config_perform _ step) (Replica.config_performAll _ steps) _ _ hrest

/-! ### Messages -/

/-- Where nobody waits to be notified, no task is woken. -/
theorem Inline.requests_emitAll (hi : h.Inline) (hl : h.Lone) (effects : List Effect) :
    requests (h.emitAll effects).2 = [] := by
  induction effects generalizing h with
  | nil => rfl
  | cons effect effects ih =>
      have hfirst : requests (h.emit effect).2 = [] := by
        cases effect with
        | opened slot => simp [Host.emit, hi.roomless, requests]
        | _ => exact List.length_eq_zero_iff.1 (Nat.le_zero.1 (hl.emit _).2.1)
      simp only [Host.emitAll, requests_append, hfirst, List.nil_append]
      exact ih (hi.emit effect) (hl.emit effect).1

/-- A host without room for tasks adopts what its replica makes of a message. -/
theorem Inline.handle (hi : h.Inline) (hm : m.Routine h.replica.isLeader) :
    h.handle m = h.adopt (h.replica.handle m).1 (h.replica.handle m).2 ∧
      (h.replica.handle m).1.config = h.replica.config := by
  have hweak := Replica.weak_respond_eq_none hm
  have hconfig := (h.replica.noted_respond m).config_eq
  have hnoted : ({ h with replica := (h.replica.respond m).replica } : Host).Inline :=
    ⟨hconfig ▸ hi.roomless, hi.boxless⟩
  simp only [Host.handle, Replica.handle, hweak]
  exact ⟨hnoted.performAll _, (Replica.config_performAll ..).trans hconfig⟩

namespace Running

/-- A host without room for tasks does with a message what its replica does by itself, and nothing
is left to run. -/
theorem message_inline {r : Run Running Task} (hi : r.state.host.Inline) (hl : r.state.host.Lone)
    (hready : r.clock.ready = []) (hm : m.Routine r.state.host.replica.isLeader) :
    (message r m).state.host.Inline ∧
      (message r m).state.host.replica = (r.state.host.replica.step m).1 ∧
      (message r m).state.sent = r.state.sent ++ (r.state.host.replica.step m).2 := by
  obtain ⟨hhandle, hconfig⟩ := hi.handle hm
  have hi' : ({ r.state.host with replica := (r.state.host.replica.handle m).1 } : Host).Inline :=
    ⟨hconfig ▸ hi.roomless, hi.boxless⟩
  have hrequests : requests (r.state.host.handle m).2 = [] := by
    rw [hhandle]
    exact hi'.requests_emitAll (hl.replace _) _
  have hmessage : message r m = r.put (r.state.note (r.state.host.handle m)) := by
    refine Run.settleWithin_of_ready program ?_ _
    simp only [Run.put, note, hrequests]
    exact hready
  have hsent : messages (r.state.host.handle m).2 = (r.state.host.replica.step m).2 := by
    rw [hhandle, (adopt_spec hl.unbatched fun slot _ => by simp [queue, hi.boxless]).2.2, hconfig]
    rfl
  rw [hmessage]
  refine ⟨?_, ?_, ?_⟩
  · change (r.state.host.handle m).1.Inline
    rw [hhandle]
    exact hi.adopt hconfig _
  · change (r.state.host.handle m).1.replica = _
    rw [hhandle, replica_adopt]
    rfl
  · change r.state.sent ++ messages (r.state.host.handle m).2 = _
    rw [hsent]

end Running

end Host

end WitnessReplication
