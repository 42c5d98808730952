import Mathlib.Data.List.Basic
import WitnessReplication.Proofs.Replica.Viewing

/-!
# Events of different slots commute

A view may absorb events of different slots in either order: it comes to the same, and does the same
but for the order in which it does it (`View.absorb_comm`). Executing the next slot commutes with
all events, since a slot that could execute takes none (`View.execute_absorb`). So what comes of the
events is the same whenever the events of each slot come in the same order and whenever slots
execute, as long as in the end none is left that could (`View.Resolves.unique`).

## Implementation notes

Counting a slot as accepted may let the accepted prefix cover later slots. In what order two slots
are counted makes no difference, unless one of them was counted before, which a slot that has
accepted no command never was (`View.Orderly`).
-/

namespace WitnessReplication.Replica

/-! ### The accepted prefix -/

namespace OrderedPrefix

/-- A slot has not been counted as accepted. -/
structure Lacks (o : OrderedPrefix) (slot : Slot) : Prop where
  next_le : o.next ≤ slot
  not_mem : slot ∉ o.accepted

variable {o : OrderedPrefix} {slot other : Slot} {entry entry' : CommandId × Bool}
variable {counted? counted'? : Option (CommandId × Bool)}

theorem Lacks.advance (h : o.Lacks slot) : o.advance.1.Lacks slot := by
  fun_induction OrderedPrefix.advance o with
  | case1 o hnone => exact h
  | case2 o entry hentry rest ih =>
      refine ih ⟨Nat.lt_of_le_of_ne h.next_le ?_, fun hmem => ?_⟩
      · rintro rfl
        exact h.not_mem (Std.ExtTreeMap.mem_iff_isSome_getElem?.2 (by simp [hentry]))
      · exact h.not_mem (Std.ExtTreeMap.mem_of_mem_erase hmem)

theorem Lacks.insert (h : o.Lacks slot) (hne : other ≠ slot) (entry : CommandId × Bool) :
    Lacks { o with accepted := o.accepted.insert other entry } slot where
  next_le := h.next_le
  not_mem hmem := by
    rcases Std.ExtTreeMap.mem_insert.1 hmem with heq | hmem
    · exact hne (Std.LawfulEqOrd.eq_of_compare heq)
    · exact h.not_mem hmem

theorem Lacks.note (h : o.Lacks slot) (hne : other ≠ slot) :
    (o.note other counted?).1.Lacks slot := by
  unfold OrderedPrefix.note
  split
  · exact h
  · split
    · exact h
    · exact (h.insert hne _).advance

theorem Lacks.note_some (h : o.Lacks slot) : o.note slot (some entry) =
    OrderedPrefix.advance { o with accepted := o.accepted.insert slot entry } := by
  rw [OrderedPrefix.note, if_neg (Nat.not_lt.2 h.next_le)]

/-- The prefix may be moved on before a further slot is counted, and once more after it. -/
theorem Lacks.advance_insert (h : o.Lacks slot) (entry : CommandId × Bool) :
    OrderedPrefix.advance { o with accepted := o.accepted.insert slot entry } =
      ((o.advance.1.note slot (some entry)).1,
        o.advance.2 ++ (o.advance.1.note slot (some entry)).2) := by
  rw [h.advance.note_some]
  fun_induction OrderedPrefix.advance o with
  | case1 o hnone => rfl
  | case2 o first hfirst rest ih =>
      have hne : slot ≠ o.next := by
        rintro rfl
        exact h.not_mem (Std.ExtTreeMap.mem_iff_isSome_getElem?.2 (by simp [hfirst]))
      have hrest : Lacks ⟨o.next + 1, o.accepted.erase o.next⟩ slot :=
        ⟨Nat.lt_of_le_of_ne h.next_le (Ne.symm hne),
          fun hmem => h.not_mem (Std.ExtTreeMap.mem_of_mem_erase hmem)⟩
      rw [OrderedPrefix.advance]
      split
      · rename_i hnone
        simp [Std.ExtTreeMap.getElem?_insert, hne, hfirst] at hnone
      · rename_i first' hfirst'
        have hsame : first' = first := by
          simpa [Std.ExtTreeMap.getElem?_insert, hne, hfirst] using hfirst'.symm
        subst hsame
        have htail := ih hrest
        simp only [Tables.insert_erase o.accepted hne, htail, List.cons_append, rest]

/-- In what order two slots are counted makes no difference. -/
theorem note_comm (hne : slot ≠ other) (hslot : counted?.isSome = true → o.Lacks slot)
    (hother : counted'?.isSome = true → o.Lacks other) :
    ((o.note slot counted?).1.note other counted'?).1 =
        ((o.note other counted'?).1.note slot counted?).1 ∧
      (o.note slot counted?).2 ++ ((o.note slot counted?).1.note other counted'?).2 =
        (o.note other counted'?).2 ++ ((o.note other counted'?).1.note slot counted?).2 := by
  cases counted? with
  | none => simp
  | some entry =>
      cases counted'? with
      | none => simp
      | some entry' =>
          have hslot := hslot rfl
          have hother := hother rfl
          have hfirst := (hother.insert hne entry).advance_insert entry'
          have hsecond := (hslot.insert hne.symm entry').advance_insert entry
          rw [← hslot.note_some] at hfirst
          rw [← hother.note_some] at hsecond
          dsimp only at hfirst hsecond
          rw [Tables.insert_comm o.accepted hne] at hfirst
          exact Prod.mk.inj (hfirst.symm.trans hsecond)

end OrderedPrefix

/-! ### Events, slot by slot -/

/-- The events for one slot. -/
def atSlot (slot : Slot) (items : List (Slot × Event)) : List (Slot × Event) :=
  items.filter fun item => item.1 = slot

theorem atSlot_append (slot : Slot) (items items' : List (Slot × Event)) :
    atSlot slot (items ++ items') = atSlot slot items ++ atSlot slot items' :=
  List.filter_append ..

theorem atSlot_cons_self (item : Slot × Event) (items : List (Slot × Event)) :
    atSlot item.1 (item :: items) = item :: atSlot item.1 items :=
  List.filter_cons_of_pos (by simp)

theorem atSlot_cons_of_ne {slot : Slot} {item : Slot × Event} (hne : item.1 ≠ slot)
    (items : List (Slot × Event)) : atSlot slot (item :: items) = atSlot slot items :=
  List.filter_cons_of_neg (by simpa using hne)

theorem atSlot_eq_nil {slot : Slot} {items : List (Slot × Event)}
    (h : ∀ item ∈ items, item.1 ≠ slot) : atSlot slot items = [] :=
  List.filter_eq_nil_iff.2 (by simpa using h)

/-- Two lists of events agree, slot by slot. -/
def SameBySlot (items items' : List (Slot × Event)) : Prop :=
  ∀ slot, atSlot slot items = atSlot slot items'

/-- Lists that agree slot by slot hold the same events. -/
theorem SameBySlot.perm {items items' : List (Slot × Event)} (h : SameBySlot items items') :
    items.Perm items' := by
  rw [List.perm_iff_count]
  intro item
  have hcount : ∀ items : List (Slot × Event), (atSlot item.1 items).count item = items.count item :=
    fun items => List.count_filter (by simp)
  rw [← hcount items, h item.1, hcount]

/-! ### Absorbing events -/

namespace View

/-- A slot that has neither executed nor accepted a command has not been counted as accepted. -/
def Orderly (v : View) : Prop :=
  ∀ slot, v.base.executed ≤ slot → (v.slots slot).accepted = false → v.base.ordered.Lacks slot

variable {v : View} {slot other : Slot} {event event' : Event}

theorem lacks_of_counted? (h : v.Orderly) (htakes : v.takes slot event = true)
    (hentry : (v.uptake slot event).counted?.isSome = true) : v.base.ordered.Lacks slot := by
  simp only [takes, Bool.and_eq_true, decide_eq_true_eq] at htakes
  exact h slot htakes.1.2 (Uptake.accepted_of_counted? hentry).1

theorem Orderly.absorb (h : v.Orderly) (slot : Slot) (event : Event) :
    (v.absorb slot event).1.Orderly := by
  unfold View.absorb
  split
  · intro other hexec haccepted
    change (Function.update v.slots slot (v.uptake slot event).record other).accepted = false
      at haccepted
    by_cases hsame : other = slot
    · subst hsame
      rw [Function.update_self] at haccepted
      have hentry : (v.uptake other event).counted? = none := by
        by_contra hsome
        rw [uptake, (Uptake.accepted_of_counted? (Option.isSome_iff_ne_none.2 hsome)).2]
          at haccepted
        simp at haccepted
      have hbefore : (v.slots other).accepted = false := by
        by_contra hsome
        rw [uptake, Uptake.accepted_ofEvent event (by simpa using hsome)] at haccepted
        simp at haccepted
      simpa [taken, Uptake.after, hentry] using h other hexec hbefore
    · rw [Function.update_of_ne hsame] at haccepted
      exact (h other hexec haccepted).note (Ne.symm hsame)
  · exact h

theorem takes_absorb (v : View) (event event' : Event) (hne : other ≠ slot) :
    (v.absorb slot event).1.takes other event' = v.takes other event' ∧
      (v.absorb slot event).1.uptake other event' = v.uptake other event' := by
  unfold View.absorb
  split
  · simp only [takes, uptake, taken, Function.update_of_ne hne]
    exact ⟨rfl, rfl⟩
  · exact ⟨rfl, rfl⟩

/-- Two slots may take their events in either order. -/
theorem taken_comm {u u' : Uptake} (hne : slot ≠ other)
    (hslot : u.counted?.isSome = true → v.base.ordered.Lacks slot)
    (hother : u'.counted?.isSome = true → v.base.ordered.Lacks other) :
    (v.taken slot u).taken other u' = (v.taken other u').taken slot u ∧
      (u.emits v.base slot ++ u'.emits (v.taken slot u).base other).Perm
        (u'.emits v.base other ++ u.emits (v.taken other u').base slot) := by
  obtain ⟨hordered, hentries⟩ := OrderedPrefix.note_comm hne hslot hother
  constructor
  · refine View.ext ?_ (Function.update_comm hne ..)
    simp only [taken, Uptake.after, hordered]
    cases u.commits
    · rfl
    · cases u'.commits
      · rfl
      · simp only [if_true, Tables.set_insert_comm]
  · rw [List.perm_iff_count]
    intro effect
    have hacks := congrArg (List.count effect) (congrArg v.base.orderedAcks hentries)
    simp only [orderedAcks, List.filter_append, List.map_append, List.count_append] at hacks
    have hafter : ∀ (u : Uptake) (slot : Slot), (v.taken slot u).base.orderedAcks =
        v.base.orderedAcks := fun u slot => rfl
    simp only [Uptake.emits, hafter, List.count_append]
    simp only [orderedAcks, taken, Uptake.after]
    omega

theorem absorb_of_takes (h : v.takes slot event = true) : v.absorb slot event =
    (v.taken slot (v.uptake slot event), (v.uptake slot event).emits v.base slot) := by
  rw [absorb, if_pos h]

theorem absorb_of_not_takes (h : v.takes slot event = false) : v.absorb slot event = (v, []) := by
  simp [absorb, h]

/-- Events of different slots may be absorbed in either order. -/
theorem absorb_comm (h : v.Orderly) (event event' : Event) (hne : slot ≠ other) :
    ((v.absorb slot event).1.absorb other event').1 =
        ((v.absorb other event').1.absorb slot event).1 ∧
      ((v.absorb slot event).2 ++ ((v.absorb slot event).1.absorb other event').2).Perm
        ((v.absorb other event').2 ++ ((v.absorb other event').1.absorb slot event).2) := by
  obtain ⟨htakes, huptake⟩ := v.takes_absorb event event' hne.symm
  obtain ⟨htakes', huptake'⟩ := v.takes_absorb event' event hne
  cases hslot : v.takes slot event with
  | false =>
      rw [hslot] at htakes'
      simp [absorb_of_not_takes hslot, absorb_of_not_takes htakes']
  | true =>
      cases hother : v.takes other event' with
      | false =>
          rw [hother] at htakes
          simp [absorb_of_not_takes hother, absorb_of_not_takes htakes]
      | true =>
          rw [hslot] at htakes'
          rw [hother] at htakes
          rw [absorb_of_takes htakes, absorb_of_takes htakes', huptake, huptake',
            absorb_of_takes hslot, absorb_of_takes hother]
          exact taken_comm hne (lacks_of_counted? h hslot) (lacks_of_counted? h hother)

/-! ### Executing the next slot -/

variable {id : CommandId} {c : Command}

theorem execute_taken (id : CommandId) (c : Command) (hne : slot ≠ v.base.executed) (u : Uptake) :
    ((v.taken slot u).execute id c).1 = (v.execute id c).1.taken slot u ∧
      ((v.taken slot u).execute id c).2 = (v.execute id c).2 ∧
      u.emits (v.execute id c).1.base slot = u.emits v.base slot := by
  have hslots : (v.taken slot u).slots (v.taken slot u).base.executed =
      v.slots v.base.executed := Function.update_of_ne hne.symm ..
  have hexecute := u.execute_after v.base hne (v.slots v.base.executed) id c
  refine ⟨?_, ?_, ?_⟩
  · refine View.ext ?_ ?_
    · simp only [execute, hslots]
      exact congrArg bare hexecute
    · exact (Function.update_comm hne ..)
  · simp only [execute, hslots, effects_execute_eq, execute_eq]
    rfl
  · simp only [execute, execute_eq]
    rfl

/-- A slot takes the same events before the next slot executes and after. -/
theorem takes_execute (hx : v.next? = some (id, c)) (slot : Slot) (event : Event) :
    (v.execute id c).1.takes slot event = v.takes slot event := by
  rw [Bool.eq_iff_iff]
  simp only [takes, config_execute, executed_execute, slots_execute, Bool.and_eq_true,
    decide_eq_true_eq]
  by_cases hsame : slot = v.base.executed
  · subst hsame
    have hslot : (v.slots v.base.executed).executable? = some (id, c) := hx
    constructor
    · rintro ⟨⟨-, hle⟩, -⟩
      exact absurd hle (Nat.not_succ_le_self _)
    · simp [hslot]
  · have hle : v.base.executed + 1 ≤ slot ↔ v.base.executed ≤ slot :=
      ⟨Nat.le_of_succ_le, fun hle => Nat.lt_of_le_of_ne hle (Ne.symm hsame)⟩
    rw [if_neg hsame, hle]
    rfl

/-- Executing the next slot commutes with every event. -/
theorem execute_absorb (hx : v.next? = some (id, c)) (slot : Slot) (event : Event) :
    (v.absorb slot event).1.next? = some (id, c) ∧
      (v.absorb slot event).1.execute id c =
        (((v.execute id c).1.absorb slot event).1, (v.execute id c).2) ∧
      ((v.execute id c).1.absorb slot event).2 = (v.absorb slot event).2 := by
  have htakes := takes_execute hx slot event
  cases hslot : v.takes slot event with
  | false =>
      rw [hslot] at htakes
      simp [absorb_of_not_takes hslot, absorb_of_not_takes htakes, hx]
  | true =>
      have hne : slot ≠ v.base.executed := by
        rintro rfl
        have hidle : (v.slots v.base.executed).executable? = some (id, c) := hx
        simp [takes, hidle] at hslot
      have huptake : (v.execute id c).1.uptake slot event = v.uptake slot event := by
        rw [uptake, slots_execute, if_neg hne]
        simp only [execute, execute_eq]
        exact Uptake.ofEvent_inline ..
      obtain ⟨hview, heffects, hemits⟩ := execute_taken id c hne (v.uptake slot event)
      rw [hslot] at htakes
      rw [absorb_of_takes hslot, absorb_of_takes htakes, huptake]
      refine ⟨?_, Prod.ext hview heffects, hemits⟩
      rw [← hx]
      exact congrArg LiveSlot.executable? (Function.update_of_ne hne.symm ..)

/-! ### What comes of events -/

/-- A view after it has absorbed events in order, with what that does. -/
def absorbAll (v : View) : List (Slot × Event) → View × List Effect
  | [] => (v, [])
  | (slot, event) :: events =>
    let first := v.absorb slot event
    let rest := first.1.absorbAll events
    (rest.1, first.2 ++ rest.2)

/-- Slots execute in order until the next one cannot. -/
inductive Drains : View → List Effect → View → Prop
  | idle {v : View} (h : v.next? = none) : Drains v [] v
  | next {v w : View} {id : CommandId} {c : Command} {effects : List Effect}
      (h : v.next? = some (id, c)) (rest : Drains (v.execute id c).1 effects w) :
      Drains v ((v.execute id c).2 ++ effects) w

/-- The messages among effects, where nothing is batched. -/
def mail (v : View) (effects : List Effect) : List Sent :=
  effects.filterMap (Effect.sent v.base.config.leader)

theorem mail_append (v : View) (effects effects' : List Effect) :
    v.mail (effects ++ effects') = v.mail effects ++ v.mail effects' := List.filterMap_append ..

theorem mail_view (r : Replica) (effects : List Effect) :
    r.view.mail effects = effects.filterMap (Effect.sent r.config.leader) := rfl

/-- What comes of events: the view that absorbs them and executes all that can, and the messages
that this sends, in some order. -/
def Resolves (v : View) (events : List (Slot × Event)) (sent : List Sent) (w : View) : Prop :=
  ∃ drained, Drains (v.absorbAll events).1 drained w ∧
    sent.Perm (v.mail ((v.absorbAll events).2 ++ drained))

theorem absorbAll_append (v : View) (events events' : List (Slot × Event)) :
    v.absorbAll (events ++ events') =
      (((v.absorbAll events).1.absorbAll events').1,
        (v.absorbAll events).2 ++ ((v.absorbAll events).1.absorbAll events').2) := by
  induction events generalizing v with
  | nil => simp [absorbAll]
  | cons item events ih => simp [absorbAll, ih]

/-- An event may be absorbed before events of other slots, or after them. -/
theorem absorbAll_comm (h : v.Orderly) (event : Event) {events : List (Slot × Event)}
    (hother : ∀ item ∈ events, item.1 ≠ slot) :
    ((v.absorb slot event).1.absorbAll events).1 =
        ((v.absorbAll events).1.absorb slot event).1 ∧
      ((v.absorb slot event).2 ++ ((v.absorb slot event).1.absorbAll events).2).Perm
        ((v.absorbAll events).2 ++ ((v.absorbAll events).1.absorb slot event).2) := by
  induction events generalizing v with
  | nil => simp [absorbAll]
  | cons item events ih =>
      obtain ⟨hview, heffects⟩ := absorb_comm h event item.2
        (hother item List.mem_cons_self).symm
      obtain ⟨hrest, hmore⟩ := ih (h.absorb item.1 item.2)
        fun item hmem => hother item (List.mem_cons_of_mem _ hmem)
      simp only [absorbAll]
      rw [hview]
      refine ⟨hrest, ?_⟩
      rw [List.perm_iff_count] at heffects hmore ⊢
      intro effect
      have heffects := heffects effect
      have hmore := hmore effect
      simp only [List.count_append] at heffects hmore ⊢
      omega

/-- Only the order of the events of each slot makes a difference. -/
theorem absorbAll_eq (h : v.Orderly) {events events' : List (Slot × Event)}
    (hsame : SameBySlot events events') :
    (v.absorbAll events).1 = (v.absorbAll events').1 ∧
      (v.absorbAll events).2.Perm (v.absorbAll events').2 := by
  induction events generalizing v events' with
  | nil =>
      have hnil : events' = [] := by
        refine List.eq_nil_iff_forall_not_mem.2 fun item hmem => ?_
        have hnone := hsame item.1
        rw [atSlot, List.filter_nil, eq_comm, atSlot, List.filter_eq_nil_iff] at hnone
        exact hnone item hmem (by simp)
      rw [hnil]
      exact ⟨rfl, .refl _⟩
  | cons item events ih =>
      have hfirst := (hsame item.1).symm
      rw [atSlot_cons_self, atSlot, List.filter_eq_cons_iff] at hfirst
      obtain ⟨before, after, rfl, hbefore, -, hafter⟩ := hfirst
      have hother : ∀ other ∈ before, other.1 ≠ item.1 := by simpa using hbefore
      -- the events of the other slots before it may go first or last
      have hrest : SameBySlot events (before ++ after) := by
        intro slot
        rw [atSlot_append]
        by_cases hslot : item.1 = slot
        · subst hslot
          rw [atSlot_eq_nil hother, List.nil_append]
          exact hafter.symm
        · have hslots := hsame slot
          rwa [atSlot_cons_of_ne hslot, atSlot_append, atSlot_cons_of_ne hslot] at hslots
      obtain ⟨hview, heffects⟩ := ih (h.absorb item.1 item.2) hrest
      obtain ⟨hmoved, hcomm⟩ := absorbAll_comm h item.2 hother
      simp only [absorbAll_append, absorbAll] at hview heffects ⊢
      rw [hmoved] at hview heffects
      refine ⟨hview, ?_⟩
      rw [List.perm_iff_count] at heffects hcomm ⊢
      intro effect
      have heffects := heffects effect
      have hcomm := hcomm effect
      simp only [List.count_append] at heffects hcomm ⊢
      omega

/-- The next slot may execute before the events are absorbed, or after. -/
theorem execute_absorbAll (hx : v.next? = some (id, c)) (events : List (Slot × Event)) :
    (v.absorbAll events).1.next? = some (id, c) ∧
      (v.absorbAll events).1.execute id c =
        (((v.execute id c).1.absorbAll events).1, (v.execute id c).2) ∧
      ((v.execute id c).1.absorbAll events).2 = (v.absorbAll events).2 := by
  induction events generalizing v with
  | nil => exact ⟨hx, rfl, rfl⟩
  | cons item events ih =>
      obtain ⟨hnext, hexecute, heffects⟩ := execute_absorb hx item.1 item.2
      obtain ⟨hrest, hmore, hlater⟩ := ih hnext
      rw [hexecute] at hmore hlater
      simp only [absorbAll]
      exact ⟨hrest, hmore, by rw [heffects, hlater]⟩

/-- What executes is determined. -/
theorem Drains.unique {v w w' : View} {effects effects' : List Effect} (h : Drains v effects w)
    (h' : Drains v effects' w') : w = w' ∧ effects = effects' := by
  induction h generalizing effects' w' with
  | idle hidle =>
      cases h' with
      | idle _ => exact ⟨rfl, rfl⟩
      | next hx rest => simp [hidle] at hx
  | next hx rest ih =>
      cases h' with
      | idle hidle => simp [hidle] at hx
      | next hx' rest' =>
          obtain ⟨rfl, rfl⟩ := Prod.mk.inj (Option.some.inj (hx.symm.trans hx'))
          obtain ⟨rfl, rfl⟩ := ih rest'
          exact ⟨rfl, rfl⟩

namespace Resolves

variable {w w' : View} {events events' : List (Slot × Event)} {sent sent' : List Sent}

/-- Nothing comes of no events where no slot can execute. -/
theorem idle (h : v.next? = none) : v.Resolves [] [] v :=
  ⟨[], .idle h, .refl _⟩

/-- The first event may be taken beforehand. -/
theorem take (htakes : v.takes slot event = true)
    (h : (v.taken slot (v.uptake slot event)).Resolves events sent w) :
    v.Resolves ((slot, event) :: events)
      (v.mail ((v.uptake slot event).emits v.base slot) ++ sent) w := by
  obtain ⟨drained, hdrains, hsent⟩ := h
  have habsorbed := absorb_of_takes htakes
  refine ⟨drained, ?_, ?_⟩
  · rw [absorbAll, habsorbed]
    exact hdrains
  · rw [absorbAll, habsorbed, List.append_assoc, mail_append]
    exact hsent.append_left _

/-- An event that is not taken may be left out. -/
theorem pass (htakes : v.takes slot event = false) (h : v.Resolves events sent w) :
    v.Resolves ((slot, event) :: events) sent w := by
  obtain ⟨drained, hdrains, hsent⟩ := h
  have habsorbed := absorb_of_not_takes htakes
  refine ⟨drained, ?_, ?_⟩
  · rw [absorbAll, habsorbed]
    exact hdrains
  · rw [absorbAll, habsorbed, List.nil_append]
    exact hsent

/-- The next slot may execute beforehand. -/
theorem execute (hx : v.next? = some (id, c)) (h : (v.execute id c).1.Resolves events sent w) :
    v.Resolves events (v.mail (v.execute id c).2 ++ sent) w := by
  obtain ⟨drained, hdrains, hsent⟩ := h
  obtain ⟨hnext, hexecute, heffects⟩ := execute_absorbAll hx events
  refine ⟨(v.execute id c).2 ++ drained, ?_, ?_⟩
  · have hdrains' : Drains (v.absorbAll events).1
        (((v.absorbAll events).1.execute id c).2 ++ drained) w :=
      .next hnext (by rw [hexecute]; exact hdrains)
    rwa [hexecute] at hdrains'
  · have hmail : (v.execute id c).1.mail = v.mail := by
      funext effects
      rw [mail, config_execute]
      rfl
    rw [hmail, heffects] at hsent
    refine (hsent.append_left _).trans ?_
    simp only [mail_append]
    exact List.perm_append_comm_assoc ..

/-- What comes of events that agree slot by slot is the same. -/
theorem unique (h : v.Resolves events sent w) (h' : v.Resolves events' sent' w')
    (horderly : v.Orderly) (hsame : SameBySlot events events') : w = w' ∧ sent.Perm sent' := by
  obtain ⟨drained, hdrains, hsent⟩ := h
  obtain ⟨drained', hdrains', hsent'⟩ := h'
  obtain ⟨hview, heffects⟩ := absorbAll_eq horderly hsame
  rw [← hview] at hdrains'
  obtain ⟨rfl, rfl⟩ := hdrains.unique hdrains'
  refine ⟨rfl, hsent.trans (List.Perm.trans ?_ hsent'.symm)⟩
  exact (heffects.append_right drained).filterMap _

end Resolves

end View

end WitnessReplication.Replica
