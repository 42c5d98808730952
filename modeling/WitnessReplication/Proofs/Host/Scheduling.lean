import WitnessReplication.Proofs.Host.Tending
import WitnessReplication.Proofs.Replica.Advancing
import WitnessReplication.Proofs.Replica.Planning

/-!
# Slots served by tasks

A host without batches and without weak commands serves its slots, some by tasks, some on the spot.
Whichever slots have tasks, what it does is a trace of its replica, in which the events of each slot
come in the order in which they were routed (`Host.Serves`), and in the end no slot is left that
could execute: one that waits for the slot before it is awaited by that, or it has been woken and
the wake-up is in its mailbox (`Host.Tended`).
-/

namespace WitnessReplication.Host

open Replica (Changes Effect Event LiveSlot Step Trace atSlot atSlot_append routedBy spokenBy)
open Running (messages requests)

/-- The events in the mailbox of a slot; without a task there are none. -/
def queue (h : Host) (slot : Slot) : List Event := (h.mailboxes[slot]?).getD []

/-- The events of a slot, wake-ups aside. -/
def news (slot : Slot) (events : List Event) : List (Slot × Event) :=
  (events.filter fun event => event ≠ .wake).map (Prod.mk slot)

/-- The slots whose wake-up is in their mailbox. -/
def woken (h : Host) : Set Slot := {slot | .wake ∈ h.queue slot}

/-- A host that serves its slots in order: all but the slots that are due, and those that have been
woken, wait for the slots before them. Only slots under way have events in their mailboxes. -/
structure Tended (due : Set Slot) (h : Host) : Prop where
  unbatched : h.batcher = none
  unapplied : h.replica.Unapplied
  steady : ∃ top, h.replica.Steady top (due ∪ h.woken)
  live : ∀ slot, h.queue slot ≠ [] → ∃ s, h.replica.live[slot]? = some s
  current : ∀ slot, ∀ event ∈ h.queue slot, event.isStale h.replica.config.ballot = false

/-- A host gets from one state to another: with events in its mailboxes and others still to be
routed, its replica makes a trace that takes some of them, slot by slot in order. What it sends is
what the trace makes it send, and what it is to say besides. Where an event is put in a mailbox, the
task that reads it is woken. -/
structure Serves (h : Host) (items : List (Slot × Event)) (said : List Sent)
    (signals : List Signal) (h' : Host) (items' : List (Slot × Event)) : Prop where
  trace : ∃ taken effects, Trace h.replica taken effects h'.replica ∧
    (messages signals).Perm
      (effects.filterMap (Effect.sent h.replica.config.leader) ++ said) ∧
    ∀ slot, news slot (h.queue slot) ++ atSlot slot items =
      atSlot slot taken ++ (news slot (h'.queue slot) ++ atSlot slot items')
  woken : ∀ slot, h'.queue slot ≠ [] → h.queue slot ≠ [] ∨
    Signal.request (.wake (.slot slot)) ∈ signals

theorem mem_woken {h : Host} {slot : Slot} : slot ∈ h.woken ↔ .wake ∈ h.queue slot := Iff.rfl

variable {h h' h'' : Host} {due due' : Set Slot} {slot : Slot} {s : LiveSlot} {event : Event}
variable {effects : List Effect} {items items' items'' : List (Slot × Event)}
variable {said said' : List Sent} {signals signals' : List Signal} {r : Replica}

theorem news_append (slot : Slot) (events events' : List Event) :
    news slot (events ++ events') = news slot events ++ news slot events' := by
  simp [news]

theorem atSlot_news (slot : Slot) (events : List Event) :
    atSlot slot (news slot events) = news slot events := by
  simp [atSlot, news, List.filter_map]

theorem atSlot_news_of_ne {other : Slot} (hne : slot ≠ other) (events : List Event) :
    atSlot other (news slot events) = [] := by
  simp [atSlot, news, List.filter_map, hne]

namespace Serves

theorem refl (h : Host) (items : List (Slot × Event)) : h.Serves items [] [] h items where
  trace := ⟨[], [], .refl _, .refl _, fun _ => rfl⟩
  woken _ hqueue := .inl hqueue

theorem congr (hreplica : h'.replica = h.replica) (hqueue : h'.queue = h.queue)
    (hsent : messages signals = said) (items : List (Slot × Event)) :
    h.Serves items said signals h' items where
  trace := by
    refine ⟨[], [], ?_, ?_, fun slot => by rw [hqueue]; rfl⟩
    · rw [hreplica]
      exact .refl _
    · rw [hsent]
      exact .refl _
  woken slot hslot := by
    rw [hqueue] at hslot
    exact .inl hslot

theorem trans (hs : h.Serves items said signals h' items')
    (hs' : h'.Serves items' said' signals' h'' items'') :
    h.Serves items (said ++ said') (signals ++ signals') h'' items'' := by
  obtain ⟨taken, effects, htrace, hsent, horder⟩ := hs.trace
  obtain ⟨taken', effects', htrace', hsent', horder'⟩ := hs'.trace
  rw [htrace.same.2] at hsent'
  constructor
  case trace =>
    refine ⟨taken ++ taken', effects ++ effects', htrace.trans htrace', ?_, fun slot => ?_⟩
    · rw [messages_append, List.filterMap_append]
      refine (hsent.append hsent').trans ?_
      rw [List.append_assoc, List.append_assoc]
      exact (List.perm_append_comm_assoc ..).append_left _
    · rw [horder slot, horder' slot, atSlot_append, List.append_assoc]
  case woken =>
    intro slot hqueue
    rcases hs'.woken slot hqueue with hqueue | hmem
    · exact (hs.woken slot hqueue).imp_right (List.mem_append_left _)
    · exact .inr (List.mem_append_right _ hmem)

end Serves

/-! ### Carrying out effects -/

/-- Where nothing is batched, carrying out an effect sends its message and keeps every event. -/
theorem emit_spec (hbatcher : h.batcher = none) (effect : Effect)
    (hopened : ∀ slot, effect = .opened slot → h.queue slot = []) :
    (h.emit effect).1.batcher = none ∧ (h.emit effect).1.queue = h.queue ∧
      messages (h.emit effect).2 = [effect].filterMap (Effect.sent h.replica.config.leader) := by
  cases effect with
  | broadcast m => exact ⟨hbatcher, rfl, rfl⟩
  | tell client m => exact ⟨hbatcher, rfl, rfl⟩
  | accept a =>
      simp [emit, batchOrSend, hbatcher, messages, Effect.sent]
  | acceptAck a =>
      simp [emit, batchOrSend, hbatcher, messages, Effect.sent]
  | opened slot =>
      simp only [emit]
      split
      · refine ⟨hbatcher, funext fun other => ?_, rfl⟩
        by_cases hsame : slot = other
        · subst hsame
          rw [hopened slot rfl]
          simp [queue]
        · simp [queue, Std.ExtTreeMap.getElem?_insert, hsame]
      · exact ⟨hbatcher, rfl, rfl⟩
  | committed slot => exact ⟨hbatcher, rfl, messages_wakeAll _⟩
  | executed slot => exact ⟨hbatcher, rfl, messages_wakeAll _⟩
  | weakExecuted client => exact ⟨hbatcher, rfl, messages_wakeAll _⟩

theorem emitAll_spec (hbatcher : h.batcher = none)
    (hopened : ∀ slot, .opened slot ∈ effects → h.queue slot = []) :
    (h.emitAll effects).1.batcher = none ∧ (h.emitAll effects).1.queue = h.queue ∧
      messages (h.emitAll effects).2 =
        effects.filterMap (Effect.sent h.replica.config.leader) := by
  induction effects generalizing h with
  | nil => exact ⟨hbatcher, rfl, rfl⟩
  | cons effect effects ih =>
      obtain ⟨hbatcher', hqueue, hsent⟩ := emit_spec hbatcher effect
        fun slot heq => hopened slot (heq ▸ List.mem_cons_self)
      obtain ⟨hbatcher'', hqueue', hsent'⟩ := ih hbatcher' fun slot hmem => by
        rw [hqueue]
        exact hopened slot (List.mem_cons_of_mem _ hmem)
      refine ⟨hbatcher'', hqueue'.trans hqueue, ?_⟩
      rw [replica_emit] at hsent'
      simp only [emitAll, messages_append, hsent, hsent']
      exact (List.filterMap_append (l := [effect])).symm

/-- So does replacing the replica and carrying out what comes with it. -/
theorem adopt_spec (hbatcher : h.batcher = none)
    (hopened : ∀ slot, .opened slot ∈ effects → h.queue slot = []) :
    (h.adopt r effects).1.batcher = none ∧ (h.adopt r effects).1.queue = h.queue ∧
      messages (h.adopt r effects).2 = effects.filterMap (Effect.sent r.config.leader) :=
  emitAll_spec (h := { h with replica := r }) hbatcher hopened

/-- Replacing the replica by what a trace makes of it serves what the trace takes. -/
theorem Serves.adopt {taken : List (Slot × Event)} (hbatcher : h.batcher = none)
    (hopened : ∀ slot, .opened slot ∈ effects → h.queue slot = [])
    (htrace : Trace h.replica taken effects r)
    (horder : ∀ slot, news slot (h.queue slot) ++ atSlot slot items =
      atSlot slot taken ++ (news slot (h.queue slot) ++ atSlot slot items')) :
    h.Serves items [] (h.adopt r effects).2 (h.adopt r effects).1 items' := by
  obtain ⟨-, hqueue, hsent⟩ := adopt_spec (r := r) hbatcher hopened
  constructor
  case trace =>
    refine ⟨taken, effects, ?_, ?_, fun slot => ?_⟩
    · rw [replica_adopt]
      exact htrace
    · rw [List.append_nil, hsent, htrace.same.2]
    · rw [hqueue]
      exact horder slot
  case woken =>
    intro slot hslot
    rw [hqueue] at hslot
    exact .inl hslot

/-- Replacing the replica keeps a host tended if the new one is in order. -/
theorem Tended.adopt (ht : h.Tended due)
    (hopened : ∀ slot, .opened slot ∈ effects → h.queue slot = [])
    (hconfig : r.config = h.replica.config) (hunapplied : r.Unapplied)
    (hsteady : ∃ top, r.Steady top (due' ∪ h.woken))
    (hlive : ∀ slot, h.queue slot ≠ [] → ∃ s, r.live[slot]? = some s) :
    (h.adopt r effects).1.Tended due' ∧ (h.adopt r effects).1.queue = h.queue := by
  obtain ⟨hbatcher, hqueue, -⟩ := adopt_spec (r := r) ht.unbatched hopened
  have hwoken : (h.adopt r effects).1.woken = h.woken := by rw [woken, hqueue, woken]
  refine ⟨⟨hbatcher, ?_, ?_, ?_, ?_⟩, hqueue⟩
  · rw [replica_adopt]
    exact hunapplied
  · rw [replica_adopt, hwoken]
    exact hsteady
  · rw [replica_adopt, hqueue]
    exact hlive
  · rw [replica_adopt, hqueue, hconfig]
    exact ht.current

namespace Tended

theorem weaken (ht : h.Tended due) (hdue : due ⊆ due') : h.Tended due' := by
  obtain ⟨top, hsteady⟩ := ht.steady
  exact { ht with steady := ⟨top, hsteady.weaken (Set.union_subset_union_left _ hdue)⟩ }

/-- What a host keeps besides its replica and its mailboxes makes no difference. -/
theorem congr (ht : h.Tended due) (hreplica : h'.replica = h.replica)
    (hbatcher : h'.batcher = none) (hqueue : h'.queue = h.queue) : h'.Tended due := by
  have hwoken : h'.woken = h.woken := by rw [woken, hqueue, woken]
  refine ⟨hbatcher, ?_, ?_, ?_, ?_⟩
  · rw [hreplica]
    exact ht.unapplied
  · rw [hreplica, hwoken]
    exact ht.steady
  · rw [hreplica, hqueue]
    exact ht.live
  · rw [hreplica, hqueue]
    exact ht.current

theorem current_replica (ht : h.Tended due) : h.replica.Current := by
  obtain ⟨top, hsteady⟩ := ht.steady
  exact fun slot s hs => (hsteady.bounds hs).1

/-- The mailbox of a slot that has executed is empty. -/
theorem queue_of_executed (ht : h.Tended due) (hpassed : slot < h.replica.executed) :
    h.queue slot = [] := by
  by_contra hqueue
  obtain ⟨s, hs⟩ := ht.live slot hqueue
  exact Nat.not_lt.2 (ht.current_replica slot s hs) hpassed

theorem queue_eq_nil (ht : h.Tended due) (hnone : h.replica.live[slot]? = none) :
    h.queue slot = [] := by
  by_contra hqueue
  obtain ⟨s, hs⟩ := ht.live slot hqueue
  rw [hnone] at hs
  simp at hs

end Tended

/-! ### Handling an event -/

/-- Events of a slot whose mailbox is empty come first. -/
theorem order_of_queue_eq_nil (hqueue : h.queue slot = []) (events : List Event)
    (items : List (Slot × Event)) (other : Slot) :
    news other (h.queue other) ++ atSlot other (news slot events ++ items) =
      atSlot other (news slot events) ++ (news other (h.queue other) ++ atSlot other items) := by
  rw [atSlot_append]
  by_cases hsame : slot = other
  · subst hsame
    rw [hqueue]
    rfl
  · rw [atSlot_news_of_ne hsame]
    rfl

/-- A slot that handles an event is not due any more. Where it executes, the next one may be. -/
theorem Tended.process (ht : h.Tended {slot}) (hs : h.replica.live[slot]? = some s)
    (hqueue : h.queue slot = []) (hstale : event.isStale h.replica.config.ballot = false) :
    (h.adopt (h.replica.process slot s event).1 (h.replica.process slot s event).2.1).1.Tended
        ((h.replica.process slot s event).2.2.leaves slot ∅) ∧
      (h.adopt (h.replica.process slot s event).1
        (h.replica.process slot s event).2.1).1.queue = h.queue := by
  have hchanges : Changes (fun _ _ => True) h.replica (h.replica.process slot s event).2.1
      (h.replica.process slot s event).1 := Replica.changes_process hs hstale trivial
  obtain ⟨top, hsteady⟩ := ht.steady
  rw [Set.singleton_union] at hsteady
  refine ht.adopt (fun other hmem => ht.queue_eq_nil (Replica.of_opened_process hmem))
    hchanges.same.2 ?_ ⟨top, ?_⟩ fun other hother => ?_
  · exact hchanges.preserve (P := fun r _ => r.Unapplied) (fun h hc => hc.unapplied h) []
      ht.unapplied
  · have hleaves : (h.replica.process slot s event).2.2.leaves slot ∅ ∪ h.woken =
        (h.replica.process slot s event).2.2.leaves slot h.woken := by
      unfold Replica.Outcome.leaves
      split
      · rw [Set.insert_union, Set.empty_union]
      · rw [Set.empty_union]
    rw [hleaves]
    exact hsteady.process hs event
  · obtain ⟨s', hs'⟩ := ht.live other hother
    refine Replica.live_process_of_ne hs' ?_
    rintro rfl
    exact hother hqueue

theorem Tended.serves_process (ht : h.Tended due) (hs : h.replica.live[slot]? = some s)
    (hqueue : h.queue slot = []) (hstale : event.isStale h.replica.config.ballot = false)
    (items : List (Slot × Event)) :
    h.Serves (news slot [event] ++ items) []
      (h.adopt (h.replica.process slot s event).1 (h.replica.process slot s event).2.1).2
      (h.adopt (h.replica.process slot s event).1 (h.replica.process slot s event).2.1).1
      items := by
  refine .adopt ht.unbatched (fun other hmem => ht.queue_eq_nil (Replica.of_opened_process hmem))
    ?_ (order_of_queue_eq_nil hqueue [event] items)
  by_cases hwake : event = .wake
  · subst hwake
    exact .process_wake hs
  · have hnews : news slot [event] = [(slot, event)] := by simp [news, hwake]
    rw [hnews]
    exact .process hs (ht.unapplied slot s hs) hstale

/-- An event that is put in a mailbox waits there, after the others. -/
theorem queue_enqueue {queue : List Event} (hbox : h.mailboxes[slot]? = some queue)
    (event : Event) (other : Slot) : (h.enqueue slot queue event).1.queue other =
      h.queue other ++ if slot = other then [event] else [] := by
  simp only [Host.queue, Host.enqueue, Std.ExtTreeMap.getElem?_insert, Std.compare_eq_iff_eq]
  split
  · rename_i hsame
    subst hsame
    rw [hbox]
    rfl
  · rw [List.append_nil]

/-- A host stays tended when an event is put in a mailbox; a slot that is due no longer is, once its
wake-up is there. -/
theorem Tended.enqueue {queue : List Event} (ht : h.Tended due)
    (hbox : h.mailboxes[slot]? = some queue) (hs : h.replica.live[slot]? = some s)
    (hstale : event.isStale h.replica.config.ballot = false)
    (hdue : ∀ other ∈ due, slot = other ∧ event = .wake) :
    (h.enqueue slot queue event).1.Tended ∅ := by
  refine ⟨ht.unbatched, ht.unapplied, ?_, ?_, ?_⟩
  · obtain ⟨top, hsteady⟩ := ht.steady
    refine ⟨top, hsteady.weaken fun other hmem => .inr ?_⟩
    rw [mem_woken, queue_enqueue hbox, List.mem_append]
    rcases hmem with hmem | hmem
    · obtain ⟨rfl, rfl⟩ := hdue other hmem
      exact .inr (by simp)
    · exact .inl hmem
  · intro other hqueue
    rw [queue_enqueue hbox] at hqueue
    by_cases hsame : slot = other
    · subst hsame
      exact ⟨s, hs⟩
    · rw [if_neg hsame, List.append_nil] at hqueue
      exact ht.live other hqueue
  · intro other event' hmem
    rw [queue_enqueue hbox, List.mem_append] at hmem
    rcases hmem with hmem | hmem
    · exact ht.current other event' hmem
    · split at hmem
      · rw [List.mem_singleton.1 hmem]
        exact hstale
      · simp at hmem

theorem serves_enqueue {queue : List Event} (hbox : h.mailboxes[slot]? = some queue)
    (event : Event) (items : List (Slot × Event)) :
    h.Serves (news slot [event] ++ items) [] (h.enqueue slot queue event).2
      (h.enqueue slot queue event).1 items where
  trace := by
    refine ⟨[], [], .refl _, .refl _, fun other => ?_⟩
    rw [queue_enqueue hbox, atSlot_append, news_append]
    split
    · rename_i hsame
      subst hsame
      rw [atSlot_news]
      simp [atSlot]
    · rename_i hne
      rw [atSlot_news_of_ne hne]
      simp [atSlot, news]
  woken other hqueue := by
    rw [queue_enqueue hbox] at hqueue
    by_cases hsame : slot = other
    · subst hsame
      exact .inr (List.mem_singleton.2 rfl)
    · rw [if_neg hsame, List.append_nil] at hqueue
      exact .inl hqueue

/-! ### Waking slots -/

/-- Waking the slot that is due leaves none that is. -/
theorem Tended.wake (ht : h.Tended {slot}) (items : List (Slot × Event)) :
    (h.wake slot).1.Tended ∅ ∧ h.Serves items [] (h.wake slot).2 (h.wake slot).1 items := by
  fun_induction Host.wake h slot with
  | case1 h slot hnone =>
      obtain ⟨top, hsteady⟩ := ht.steady
      rw [Set.singleton_union] at hsteady
      have hsteady' : h.replica.Steady top (∅ ∪ h.woken) := by
        rw [Set.empty_union]
        refine hsteady.of_not_executable fun s hs => ?_
        rw [hnone] at hs
        simp at hs
      exact ⟨{ ht with steady := ⟨top, hsteady'⟩ }, .refl h items⟩
  | case2 h slot s hs queue hbox =>
      refine ⟨ht.enqueue hbox hs rfl fun other hmem => ⟨hmem.symm, rfl⟩, ?_⟩
      exact serves_enqueue hbox .wake items
  | case3 h slot s hs hbox r effects hp adopted rest ih =>
      have hqueue : h.queue slot = [] := by simp [Host.queue, hbox]
      have hwake : Event.wake.isStale h.replica.config.ballot = false := rfl
      obtain ⟨hnext, -⟩ := ht.process hs hqueue hwake
      have hfirst := ht.serves_process hs hqueue hwake items
      rw [hp] at hnext hfirst
      rw [Replica.Outcome.leaves, insert_empty_eq] at hnext
      obtain ⟨hdone, hrest⟩ := ih hnext
      exact ⟨hdone, hfirst.trans hrest⟩
  | case4 h slot s hs hbox r effects hp =>
      have hqueue : h.queue slot = [] := by simp [Host.queue, hbox]
      have hwake : Event.wake.isStale h.replica.config.ballot = false := rfl
      obtain ⟨hdone, -⟩ := ht.process hs hqueue hwake
      have hserves := ht.serves_process hs hqueue hwake items
      rw [hp] at hdone hserves
      exact ⟨hdone, hserves⟩
  | case5 h slot s hs hbox r effects hp =>
      have hqueue : h.queue slot = [] := by simp [Host.queue, hbox]
      have hwake : Event.wake.isStale h.replica.config.ballot = false := rfl
      obtain ⟨hdone, -⟩ := ht.process hs hqueue hwake
      have hserves := ht.serves_process hs hqueue hwake items
      rw [hp] at hdone hserves
      exact ⟨hdone, hserves⟩

/-! ### Routing events -/

/-- A host stays tended when a slot is claimed for an event. -/
theorem Tended.claim {opened : List Effect} (ht : h.Tended ∅)
    (hclaim : h.replica.claim slot event = some (r, s, opened)) (items : List (Slot × Event)) :
    (h.adopt r opened).1.Tended ∅ ∧ (h.adopt r opened).1.queue = h.queue ∧
      h.Serves items [] (h.adopt r opened).2 (h.adopt r opened).1 items := by
  obtain ⟨-, ⟨rfl, hs, rfl⟩ | ⟨rfl, hnone, hexec, rfl, rfl⟩⟩ := Replica.claim_cases hclaim
  · exact ⟨ht, rfl, .refl h items⟩
  · have hopen : Replica.Change (fun _ _ => False) h.replica [.opened slot]
        (h.replica.putSlot slot {}) := .opened hnone hexec
    have hchange : Changes (fun _ _ => False) h.replica [.opened slot]
        (h.replica.putSlot slot {}) := .single hopen
    have hopened : ∀ other, .opened other ∈ [Effect.opened slot] → h.queue other = [] := by
      intro other hmem
      obtain rfl := Effect.opened.inj (List.mem_singleton.1 hmem)
      exact ht.queue_eq_nil hnone
    obtain ⟨top, hsteady⟩ := ht.steady
    have hsteady' : (h.replica.putSlot slot {}).Steady (max top (slot + 1)) (∅ ∪ h.woken) := by
      refine (((hsteady.mono (Nat.le_max_left ..)).weaken (Set.subset_insert slot _)).putSlot hexec
        (Nat.lt_of_lt_of_le (Nat.lt_succ_self slot) (Nat.le_max_right ..)) ?_).of_not_executable ?_
      · intro s' hs'
        rw [hnone] at hs'
        simp at hs'
      · intro s' hs'
        rw [Replica.live_putSlot, Std.ExtTreeMap.getElem?_insert_self] at hs'
        rw [← Option.some.inj hs']
        rfl
    obtain ⟨hdone, hqueue⟩ := ht.adopt hopened hchange.same.2 (hopen.unapplied ht.unapplied)
      ⟨_, hsteady'⟩ fun other hother => by
        obtain ⟨s', hs'⟩ := ht.live other hother
        have hne : slot ≠ other := by
          rintro rfl
          rw [hnone] at hs'
          simp at hs'
        exact ⟨s', by simpa [Std.ExtTreeMap.getElem?_insert, hne] using hs'⟩
    exact ⟨hdone, hqueue,
      .adopt ht.unbatched hopened (.of_changes hchange) fun _ => rfl⟩

/-- An event that comes too late is passed over. -/
theorem Tended.serves_pass (ht : h.Tended due) (hpassed : slot < h.replica.executed)
    (events : List Event) (items : List (Slot × Event)) :
    h.Serves (news slot events ++ items) [] [] h items where
  trace := by
    refine ⟨news slot events, [], .passAll fun item hmem => ?_, .refl _,
      order_of_queue_eq_nil (ht.queue_of_executed hpassed) events items⟩
    obtain ⟨event, -, rfl⟩ := List.mem_map.1 hmem
    exact hpassed
  woken _ hqueue := .inl hqueue

/-- Routing an event serves it, unless it is stale. -/
theorem Tended.route (ht : h.Tended ∅) (hwake : event ≠ .wake) (items : List (Slot × Event)) :
    (h.route slot event).1.Tended ∅ ∧
      h.Serves ((if event.isStale h.replica.config.ballot then [] else [(slot, event)]) ++ items) []
        (h.route slot event).2 (h.route slot event).1 items := by
  have hnews : news slot [event] = [(slot, event)] := by simp [news, hwake]
  unfold Host.route
  split
  · rename_i hclaim
    refine ⟨ht, ?_⟩
    split
    · exact .refl h items
    · rename_i hstale
      have hpassed := (Replica.passed_of_claim hclaim hwake).resolve_left hstale
      rw [← hnews]
      exact ht.serves_pass hpassed [event] items
  · rename_i r s opened hclaim
    obtain ⟨hstale, hs, -⟩ : event.isStale r.config.ballot = false ∧ r.live[slot]? = some s ∧
      Changes (fun _ _ => False) h.replica opened r := Replica.changes_claim hclaim
    obtain ⟨hclaimed, -, hfirst⟩ := ht.claim hclaim (news slot [event] ++ items)
    have hcurrent : event.isStale h.replica.config.ballot = false := (Replica.claim_cases hclaim).1
    rw [hcurrent, if_neg Bool.false_ne_true, ← hnews]
    have hs' : (h.adopt r opened).1.replica.live[slot]? = some s := by rwa [replica_adopt]
    have hstale' : event.isStale (h.adopt r opened).1.replica.config.ballot = false := by
      rwa [replica_adopt]
    dsimp only
    split
    · rename_i queue hbox
      exact ⟨hclaimed.enqueue hbox hs' hstale' (by simp), hfirst.trans (serves_enqueue hbox _ _)⟩
    · rename_i hbox
      have hqueue : (h.adopt r opened).1.queue slot = [] := by simp [Host.queue, hbox]
      have hdue : (h.adopt r opened).1.Tended {slot} := hclaimed.weaken (Set.empty_subset _)
      obtain ⟨hnext, -⟩ := hdue.process hs' hqueue hstale'
      have hsecond := hdue.serves_process hs' hqueue hstale' items
      have hserves := hfirst.trans hsecond
      split
      · rename_i houtcome
        rw [houtcome, Replica.Outcome.leaves, insert_empty_eq] at hnext
        obtain ⟨hdone, hrest⟩ := hnext.wake items
        exact ⟨hdone, hserves.trans hrest⟩
      · rename_i houtcome
        have hleaves : ((h.adopt r opened).1.replica.process slot s event).2.2.leaves slot ∅ = ∅ := by
          unfold Replica.Outcome.leaves
          split
          · exact absurd (by assumption) houtcome
          · rfl
        rw [hleaves] at hnext
        exact ⟨hnext, hserves⟩

/-! ### Serving a mailbox -/

theorem Tended.wakeIf {awaited : Bool}
    (ht : h.Tended (Replica.Outcome.leaves slot ∅ (.executed awaited)))
    (items : List (Slot × Event)) :
    (if awaited then h.wake (slot + 1) else (h, [])).1.Tended ∅ ∧
      h.Serves items [] (if awaited then h.wake (slot + 1) else (h, [])).2
        (if awaited then h.wake (slot + 1) else (h, [])).1 items := by
  cases awaited with
  | false => exact ⟨ht, .refl h items⟩
  | true =>
      rw [Replica.Outcome.leaves, insert_empty_eq] at ht
      exact ht.wake items

/-- An empty mailbox may be there or not. -/
theorem queue_erase (hqueue : h.queue slot = []) :
    ({ h with mailboxes := h.mailboxes.erase slot } : Host).queue = h.queue := by
  funext other
  simp only [Host.queue, Std.ExtTreeMap.getElem?_erase, Std.compare_eq_iff_eq]
  split
  · rename_i hsame
    subst hsame
    exact hqueue.symm
  · rfl

/-- The task of a slot serves the events that it has taken out of the mailbox. -/
theorem Tended.serve {events : List Event} (ht : h.Tended {slot})
    (hs : ∃ s, h.replica.live[slot]? = some s) (hqueue : h.queue slot = [])
    (hstale : ∀ event ∈ events, event.isStale h.replica.config.ballot = false)
    (hne : events ≠ []) (items : List (Slot × Event)) :
    (h.serve slot events).1.Tended ∅ ∧
      h.Serves (news slot events ++ items) [] (h.serve slot events).2 (h.serve slot events).1
        items := by
  induction events generalizing h with
  | nil => exact absurd rfl hne
  | cons event events ih =>
      obtain ⟨s, hs⟩ := hs
      have hcurrent := hstale event List.mem_cons_self
      obtain ⟨hnext, hsame⟩ := ht.process hs hqueue hcurrent
      have hfirst := ht.serves_process hs hqueue hcurrent (news slot events ++ items)
      rw [← List.append_assoc, ← news_append, List.singleton_append] at hfirst
      have hqueue' := (congrFun hsame slot).trans hqueue
      have hspec := Replica.process_spec hs event
      have hconfig : (h.replica.process slot s event).1.config = h.replica.config :=
        (Replica.changes_process hs hcurrent trivial :
          Changes (fun _ _ => True) _ _ _).same.2
      have hreplica := replica_adopt h (h.replica.process slot s event).1
        (h.replica.process slot s event).2.1
      unfold Host.serve
      rw [hs]
      dsimp only
      generalize h.replica.process slot s event = processed at *
      obtain ⟨r, effects, outcome⟩ := processed
      generalize h.adopt r effects = adopted at *
      rcases hspec with ⟨rfl, hlive⟩ | ⟨awaited, rfl, hexec⟩
      · -- the rest of the events is served next
        by_cases hlast : events = []
        · subst hlast
          refine ⟨hnext, ?_⟩
          simpa [Host.serve, news] using hfirst
        · have hrest := ih (hnext.weaken (Set.empty_subset _)) (by rwa [hreplica]) hqueue'
            (by
              rw [hreplica, hconfig]
              exact fun event hmem => hstale event (List.mem_cons_of_mem _ hmem)) hlast
          exact ⟨hrest.1, hfirst.trans hrest.2⟩
      · -- the rest of the events comes too late
        have hlate : slot < adopted.1.replica.executed := by
          rw [hreplica]
          exact Nat.lt_of_lt_of_eq (Nat.lt_succ_self slot) hexec.symm
        have hpass := hnext.serves_pass hlate events items
        obtain ⟨hwoken, hwake⟩ := hnext.wakeIf items
        dsimp only at hwoken hwake ⊢
        generalize (if awaited then adopted.1.wake (slot + 1) else (adopted.1, [])) = last at *
        obtain ⟨_, _, htrace, -⟩ := hwake.trace
        have hclosed := queue_erase (hwoken.queue_of_executed
          (Nat.lt_of_lt_of_le hlate (htrace.le_executed hnext.current_replica)))
        have hclose : last.1.Serves items [] []
            { last.1 with mailboxes := last.1.mailboxes.erase slot } items :=
          .congr (by rfl) hclosed (by rfl) items
        refine ⟨hwoken.congr rfl hwoken.unbatched hclosed, ?_⟩
        simpa using hfirst.trans (hpass.trans (hwake.trans hclose))

/-- What is left when a mailbox has been emptied. -/
theorem queue_unload (slot other : Slot) :
    ({ h with mailboxes := h.mailboxes.insert slot [] } : Host).queue other =
      if slot = other then [] else h.queue other := by
  simp only [Host.queue, Std.ExtTreeMap.getElem?_insert, Std.compare_eq_iff_eq]
  split
  · rfl
  · rfl

/-- Emptying a mailbox leaves the others as they are. -/
theorem of_queue_unload {slot other : Slot}
    (hother : ({ h with mailboxes := h.mailboxes.insert slot [] } : Host).queue other ≠ []) :
    other ≠ slot ∧ h.queue other ≠ [] := by
  rw [queue_unload] at hother
  split at hother
  · exact absurd rfl hother
  · rename_i hne
    exact ⟨Ne.symm hne, hother⟩

/-- A slot whose mailbox has been emptied is due. -/
theorem Tended.unload (ht : h.Tended ∅) (slot : Slot) :
    ({ h with mailboxes := h.mailboxes.insert slot [] } : Host).Tended {slot} := by
  refine ⟨ht.unbatched, ht.unapplied, ?_, fun other hother => ?_, ?_⟩
  · obtain ⟨top, hsteady⟩ := ht.steady
    refine ⟨top, hsteady.weaken ?_⟩
    rintro other (hmem | hmem)
    · exact absurd hmem (Set.notMem_empty other)
    · by_cases hsame : slot = other
      · exact .inl hsame.symm
      · exact .inr (by rwa [mem_woken, queue_unload, if_neg hsame])
  · exact ht.live other (of_queue_unload hother).2
  · intro other event hmem
    rw [queue_unload] at hmem
    split at hmem
    · simp at hmem
    · exact ht.current other event hmem

/-- One look of the task of a slot serves all that is in the mailbox. -/
theorem Tended.lookSlot (ht : h.Tended ∅) (slot : Slot) (items : List (Slot × Event)) :
    (h.lookSlot slot).1.Tended ∅ ∧
      h.Serves items [] (h.lookSlot slot).2 (h.lookSlot slot).1 items ∧
      ∀ other, (h.lookSlot slot).1.queue other ≠ [] → (other ≠ slot ∧ h.queue other ≠ []) ∨
        Signal.request (.wake (.slot other)) ∈ (h.lookSlot slot).2 := by
  unfold Host.lookSlot
  cases hbox : h.mailboxes[slot]? with
  | none =>
      refine ⟨ht, .refl h items, fun other hother => .inl ⟨?_, hother⟩⟩
      rintro rfl
      simp [Host.queue, hbox] at hother
  | some queue =>
      have hold : h.queue slot = queue := by simp [Host.queue, hbox]
      dsimp only
      have hdue := ht.unload slot
      have hqueue := fun other => queue_unload (h := h) slot other
      have hboxes : ∀ other,
          ({ h with mailboxes := h.mailboxes.insert slot [] } : Host).queue other ≠ [] →
            other ≠ slot ∧ h.queue other ≠ [] := fun other hother => of_queue_unload hother
      have hreplica : ({ h with mailboxes := h.mailboxes.insert slot [] } : Host).replica =
        h.replica := rfl
      have hbatcher : ({ h with mailboxes := h.mailboxes.insert slot [] } : Host).batcher =
        h.batcher := rfl
      generalize ({ h with mailboxes := h.mailboxes.insert slot [] } : Host) = unloaded at *
      by_cases hempty : queue = []
      · have hsame : unloaded.queue = h.queue := by
          funext other
          rw [hqueue]
          split
          · rename_i heq
            rw [← heq, hold, hempty]
          · rfl
        subst hempty
        exact ⟨ht.congr hreplica (hbatcher.trans ht.unbatched) hsame,
          .congr hreplica hsame (by rfl) items, fun other hother => .inl (hboxes other hother)⟩
      · have hlive := ht.live slot (by rwa [hold])
        have hcurrent := ht.current slot
        rw [hold] at hcurrent
        rw [← hreplica] at hlive hcurrent
        obtain ⟨hdone, hserves⟩ :=
          hdue.serve hlive (by rw [hqueue, if_pos rfl]) hcurrent hempty items
        obtain ⟨taken, effects, htrace, hsent, horder⟩ := hserves.trace
        have hwoken : ∀ other, (unloaded.serve slot queue).1.queue other ≠ [] →
            (other ≠ slot ∧ h.queue other ≠ []) ∨
              Signal.request (.wake (.slot other)) ∈ (unloaded.serve slot queue).2 :=
          fun other hother => (hserves.woken other hother).imp_left (hboxes other)
        rw [hreplica] at htrace hsent
        refine ⟨hdone, ⟨⟨taken, effects, htrace, hsent, fun other => ?_⟩, fun other hother => ?_⟩,
          hwoken⟩
        · rw [← horder, hqueue, atSlot_append]
          split
          · rename_i hsame
            subst hsame
            rw [hold, atSlot_news]
            rfl
          · rename_i hne
            rw [atSlot_news_of_ne hne]
            rfl
        · exact (hwoken other hother).imp_left And.right

/-! ### Planned steps -/

/-- Carrying out planned steps serves the events that they route. -/
theorem Tended.performAll {steps : List Step} (ht : h.Tended ∅)
    (hsteps : ∀ step ∈ steps, step.Regular) :
    (h.performAll steps).1.Tended ∅ ∧
      h.Serves (routedBy h.replica.config.ballot steps)
        (spokenBy h.replica.config.leader steps) (h.performAll steps).2 (h.performAll steps).1
        [] := by
  induction steps generalizing h with
  | nil => exact ⟨ht, .refl h []⟩
  | cons step steps ih =>
      have hrest := fun step hmem => hsteps step (List.mem_cons_of_mem _ hmem)
      have hfirst := hsteps step List.mem_cons_self
      cases step with
      | emit effect =>
          obtain ⟨hbatcher, hqueue, hsent⟩ := emit_spec ht.unbatched effect
            fun slot heq => absurd heq (hfirst slot)
          obtain ⟨hdone, hserves⟩ :=
            ih (ht.congr (h.replica_emit effect) hbatcher hqueue) hrest
          rw [replica_emit] at hserves
          refine ⟨hdone, ?_⟩
          have hemit : h.Serves (routedBy h.replica.config.ballot steps)
              ([effect].filterMap (Effect.sent h.replica.config.leader)) (h.emit effect).2
              (h.emit effect).1 (routedBy h.replica.config.ballot steps) :=
            .congr (h.replica_emit effect) hqueue hsent _
          exact hemit.trans hserves
      | route slot event =>
          obtain ⟨hrouted, hserves⟩ := ht.route hfirst (routedBy h.replica.config.ballot steps)
          obtain ⟨_, _, htrace, -⟩ := hserves.trace
          obtain ⟨hdone, hserves'⟩ := ih hrouted hrest
          rw [htrace.same.2] at hserves'
          exact ⟨hdone, hserves.trans hserves'⟩

end WitnessReplication.Host
