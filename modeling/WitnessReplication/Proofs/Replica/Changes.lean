import WitnessReplication.Replica.Handling

/-!
# Changes to a replica

Handing an event to a slot can open slots, let one take the event, mark one as awaited and execute
a whole chain of them. `Change` lists what one such change can be, with everything that is known
when it happens, and `Changes` strings them together. `changes_route` says that `Replica.route`
does nothing else, so that what every change preserves is preserved by every route.

## Implementation notes

Being woken changes nothing by itself: the record of the slot is written back as it was. The
events of a `Change` are therefore only those that came in from outside, and `fits` says which of
them may reach which slot.
-/

namespace WitnessReplication.Replica

/-- One change to a replica that serves its slots, with its effects. -/
inductive Change (fits : Slot → Event → Prop) : Replica → List Effect → Replica → Prop
  /-- A slot that has not executed is put under way. -/
  | opened {r : Replica} {slot : Slot} (hlive : r.live[slot]? = none)
      (hexec : r.executed ≤ slot) : Change fits r [.opened slot] (r.putSlot slot {})
  /-- A slot under way takes an event. -/
  | took {r : Replica} {slot : Slot} {s : LiveSlot} {event : Event}
      (hs : r.live[slot]? = some s) (happlied : s.applied = false)
      (hstale : event.isStale r.config.ballot = false) (hfit : fits slot event) :
      Change fits r (r.apply slot s event).2.2
        ((r.apply slot s event).1.putSlot slot (r.apply slot s event).2.1)
  /-- A slot under way is marked as awaited by the next one. -/
  | awaited {r : Replica} {slot : Slot} {s : LiveSlot} (hs : r.live[slot]? = some s)
      (hexec : r.executed ≤ slot) : Change fits r [] (r.putSlot slot { s with awaited := true })
  /-- A committed slot executes and is no longer under way. -/
  | executed {r : Replica} {slot : Slot} {s : LiveSlot} {id : CommandId} {c : Command}
      (hs : r.live[slot]? = some s) (hx : s.executable? = some (id, c))
      (hturn : slot ≤ r.executed) :
      Change fits r (r.execute slot s id c).2 ((r.execute slot s id c).1.dropSlot slot)

theorem Change.mono {fits fits' : Slot → Event → Prop} {r r' : Replica} {effects : List Effect}
    (h : Change fits r effects r') (hfits : ∀ slot event, fits slot event → fits' slot event) :
    Change fits' r effects r' := by
  cases h with
  | opened hlive hexec => exact .opened hlive hexec
  | took hs happlied hstale hfit => exact .took hs happlied hstale (hfits _ _ hfit)
  | awaited hs hexec => exact .awaited hs hexec
  | executed hs hx hturn => exact .executed hs hx hturn

/-- A sequence of changes, with all their effects in order. -/
inductive Changes (fits : Slot → Event → Prop) : Replica → List Effect → Replica → Prop
  | refl (r : Replica) : Changes fits r [] r
  | tail {r r' r'' : Replica} {effects effects' : List Effect} (h : Changes fits r effects r')
      (hlast : Change fits r' effects' r'') : Changes fits r (effects ++ effects') r''

variable {fits : Slot → Event → Prop} {r r' r'' : Replica} {effects effects' : List Effect}

namespace Changes

theorem single (h : Change fits r effects r') : Changes fits r effects r' := by
  simpa using tail (refl r) h

theorem trans (h : Changes fits r effects r') (h' : Changes fits r' effects' r'') :
    Changes fits r (effects ++ effects') r'' := by
  induction h' with
  | refl => simpa using h
  | tail _ hlast ih =>
      rw [← List.append_assoc]
      exact tail ih hlast

/-- What every change preserves, together with the effects so far, a sequence preserves. -/
theorem preserve {P : Replica → List Effect → Prop}
    (hstep : ∀ {r r' sent effects}, P r sent → Change fits r effects r' → P r' (sent ++ effects))
    (h : Changes fits r effects r') (sent : List Effect) (hp : P r sent) :
    P r' (sent ++ effects) := by
  induction h with
  | refl => simpa using hp
  | tail _ hlast ih =>
      rw [← List.append_assoc]
      exact hstep ih hlast

end Changes

/-- Writing back the record of a slot changes nothing. -/
theorem putSlot_self {slot : Slot} {s : LiveSlot} (hs : r.live[slot]? = some s) :
    r.putSlot slot s = r := by
  have hlive : r.live.insert slot s = r.live := by
    apply Std.ExtTreeMap.ext_getElem?
    intro other
    rw [Std.ExtTreeMap.getElem?_insert]
    split
    · rename_i heq
      rw [← Std.LawfulEqOrd.eq_of_compare heq, hs]
    · rfl
  rw [putSlot, hlive]

/-- A slot that has not executed is opened by at most one change. -/
theorem changes_openSlot {slot : Slot} (hexec : r.executed ≤ slot) :
    Changes fits r (r.openSlot slot).2 (r.openSlot slot).1 := by
  unfold openSlot
  split
  · exact .refl r
  · rename_i hnew
    exact .single (.opened (by simpa using hnew) hexec)

theorem live_openSlot_self (slot : Slot) :
    (r.openSlot slot).1.live[slot]? = some ((r.live[slot]?).getD {}) := by
  unfold openSlot
  split
  · rename_i hmem
    obtain ⟨s, hs⟩ := Option.isSome_iff_exists.1
      (Std.ExtTreeMap.mem_iff_isSome_getElem?.1 (Std.ExtTreeMap.contains_iff_mem.1 hmem))
    simp [hs]
  · rename_i hnew
    have hnone : r.live[slot]? = none := by simpa using hnew
    simp [hnone]

theorem executed_openSlot (slot : Slot) : (r.openSlot slot).1.executed = r.executed := by
  unfold openSlot
  split <;> rfl

theorem changes_await {slot : Slot} (hexec : r.executed ≤ slot) :
    Changes fits r (r.await slot).2 (r.await slot).1 := by
  have hs := live_openSlot_self (r := r) slot
  have hmark : Change fits (r.openSlot slot).1 [] (r.await slot).1 := by
    simp only [await, hs, Option.getD_some]
    exact .awaited hs (by rwa [executed_openSlot])
  simpa [await] using (changes_openSlot hexec).tail hmark

/-- Trying to execute a slot executes it, marks the slot before it as awaited, or does nothing. -/
theorem changes_advance {slot : Slot} {s : LiveSlot} (hs : r.live[slot]? = some s) :
    Changes fits r (r.advance slot s).2.1 (r.advance slot s).1 := by
  unfold advance
  split
  · exact .refl r
  · rename_i id c hx
    dsimp only
    split
    · rename_i hprior
      exact changes_await (by simpa [isExecuted] using hprior.2)
    · rename_i hturn
      refine .single (.executed hs hx ?_)
      simp only [isExecuted, decide_eq_true_eq] at hturn
      lia

/-- A slot that takes an event may execute right after. -/
theorem changes_process {slot : Slot} {s : LiveSlot} {event : Event}
    (hs : r.live[slot]? = some s) (hstale : event.isStale r.config.ballot = false)
    (hfit : fits slot event) :
    Changes fits r (r.process slot s event).2.1 (r.process slot s event).1 := by
  unfold process
  split
  · exact .refl r
  · rename_i happlied
    have htook := Change.took hs (by simpa using happlied) hstale hfit
    refine (Changes.single htook).trans (changes_advance ?_)
    simp

/-- A slot that is woken only tries to execute. -/
theorem changes_process_wake {slot : Slot} {s : LiveSlot} (hs : r.live[slot]? = some s) :
    Changes fits r (r.process slot s .wake).2.1 (r.process slot s .wake).1 := by
  unfold process
  split
  · exact .refl r
  · simpa [apply, putSlot_self hs] using changes_advance hs

/-- Waking a chain of slots is a sequence of changes. -/
theorem changes_wake (r : Replica) (slot : Slot) :
    Changes fits r (r.wake slot).2 (r.wake slot).1 := by
  fun_induction wake r slot with
  | case1 => exact .refl _
  | case2 r slot s hs r' effects hp rest ih =>
      have hfirst : Changes fits r _ _ := changes_process_wake hs
      rw [hp] at hfirst
      exact hfirst.trans ih
  | case3 r slot s hs r' effects hp =>
      have hfirst : Changes fits r _ _ := changes_process_wake hs
      rwa [hp] at hfirst
  | case4 r slot s hs r' effects hp =>
      have hfirst : Changes fits r _ _ := changes_process_wake hs
      rwa [hp] at hfirst

/-- An event is claimed by the slot if it is under way; otherwise the slot is opened for it. -/
theorem claim_cases {slot : Slot} {event : Event} {s : LiveSlot}
    (h : r.claim slot event = some (r', s, effects)) :
    event.isStale r.config.ballot = false ∧
      (r' = r ∧ r.live[slot]? = some s ∧ effects = [] ∨
        r' = r.putSlot slot {} ∧ r.live[slot]? = none ∧ r.executed ≤ slot ∧ s = {} ∧
          effects = [.opened slot]) := by
  unfold claim at h
  split at h
  · simp at h
  · rename_i hstale
    refine ⟨by simpa using hstale, ?_⟩
    split at h
    · rename_i s' hs
      obtain ⟨rfl, rfl, rfl⟩ : r = r' ∧ s' = s ∧ [] = effects := by simpa using h
      exact .inl ⟨rfl, hs, rfl⟩
    · rename_i hnone
      split at h
      · simp at h
      · rename_i hnew
        simp only [openSlot, Std.ExtTreeMap.contains_eq_isSome_getElem?, hnone] at h
        obtain ⟨rfl, rfl, rfl⟩ : r.putSlot slot {} = r' ∧ {} = s ∧ [.opened slot] = effects := by
          simpa using h
        refine .inr ⟨rfl, hnone, ?_, rfl, rfl⟩
        simpa [isExecuted] using fun hexec => hnew (.inr hexec)

/-- An event is claimed by a slot under way, which may have been opened for it. -/
theorem changes_claim {slot : Slot} {event : Event} {s : LiveSlot}
    (h : r.claim slot event = some (r', s, effects)) :
    event.isStale r'.config.ballot = false ∧ r'.live[slot]? = some s ∧
      Changes fits r effects r' := by
  obtain ⟨hstale, ⟨rfl, hs, rfl⟩ | ⟨rfl, hnone, hexec, rfl, rfl⟩⟩ := claim_cases h
  · exact ⟨hstale, hs, .refl _⟩
  · exact ⟨hstale, by simp, .single (.opened hnone hexec)⟩

/-- An event that no slot claims is stale or too late, unless it is a wake-up. -/
theorem passed_of_claim {slot : Slot} {event : Event} (h : r.claim slot event = none)
    (hwake : event ≠ .wake) : event.isStale r.config.ballot = true ∨ slot < r.executed := by
  unfold claim at h
  split at h
  · exact .inl (by assumption)
  · split at h
    · simp at h
    · split at h
      · rename_i hpassed
        exact .inr (by simpa [isExecuted] using hpassed.resolve_left hwake)
      · simp at h

/-- Handing an event to a slot is a sequence of changes. -/
theorem changes_route {slot : Slot} {event : Event} (hfit : fits slot event) :
    Changes fits r (r.route slot event).2 (r.route slot event).1 := by
  unfold route
  split
  · exact .refl r
  · rename_i r' s opened hclaim
    obtain ⟨hstale, hs, hopened⟩ := changes_claim hclaim
    have hprocessed := hopened.trans (changes_process hs hstale hfit)
    dsimp only
    split
    · exact hprocessed.trans (changes_wake _ _)
    · exact hprocessed

end WitnessReplication.Replica
