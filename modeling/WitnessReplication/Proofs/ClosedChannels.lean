import WitnessReplication.Proofs.BoundedWaits

/-!
# Closed channels

A receiver's channel is closed by the steps that close the channel of its key (`Step.Closes`), that
is by a notification, or by a wait whose goal holds when it starts, and by nothing else
(`Registry.Waiters.receiver_closed_iff`). A waiter that finds its goal later closes a channel that
has been closed before in the same step.
-/

namespace WitnessReplication.Registry.Waiters

variable {keys : List Int} {closing : Int → Prop} {w w' w'' : Waiters} {r : Run Waiters Nat}
variable {now n i : Nat} {key : Int}

/-! ### Receivers while waiters settle -/

/-- Each receiver listens on the channel of its key until this is closed. -/
structure Hears (keys : List Int) (w : Waiters) : Prop where
  length_eq : w.closed.length = keys.length
  mem_iff : ∀ {n key}, .receiver n ∈ w.registry.subscribers key ↔
    keys[n]? = some key ∧ w.closed[n]? = some false

/-- No channel is closed but those of some keys, and none is opened again. -/
structure Shuts (closing : Int → Prop) (keys : List Int) (w w' : Waiters) : Prop where
  hears : Hears keys w'
  shut : ∀ {n : Nat}, w'.closed[n]? = some false → w.closed[n]? = some false
  spared : ∀ {n : Nat} {key : Int}, keys[n]? = some key → ¬closing key → w.closed[n]? = some false →
    w'.closed[n]? = some false

theorem Hears.shuts (h : Hears keys w) : Shuts closing keys w w := ⟨h, id, fun _ _ h => h⟩

theorem Shuts.trans (h : Shuts closing keys w w') (h' : Shuts closing keys w' w'') :
    Shuts closing keys w w'' where
  hears := h'.hears
  shut hn := h.shut (h'.shut hn)
  spared hkey hnot hn := h'.spared hkey hnot (h.spared hkey hnot hn)

/-- What leaves the channels of receivers as they are closes none. -/
theorem Hears.untouched (h : Hears keys w)
    (hregistry : ∀ {n key}, .receiver n ∈ w'.registry.subscribers key ↔
      .receiver n ∈ w.registry.subscribers key)
    (hclosed : w'.closed = w.closed) : Shuts closing keys w w' where
  hears := ⟨by rw [hclosed, h.length_eq], by rw [hclosed]; exact hregistry.trans h.mem_iff⟩
  shut hn := hclosed ▸ hn
  spared _ _ hn := hclosed.symm ▸ hn

theorem closed_reach {subs : List Subscriber} : (w.reach subs).1.closed[n]? = some false ↔
    w.closed[n]? = some false ∧ .receiver n ∉ subs := by
  simp only [reach, List.getElem?_mapIdx, Option.map_eq_some_iff, Bool.or_eq_false_iff,
    decide_eq_false_iff_not]
  constructor
  · rintro ⟨b, hb, rfl, hnot⟩
    exact ⟨hb, hnot⟩
  · rintro ⟨hb, hnot⟩
    exact ⟨false, hb, rfl, hnot⟩

/-- A channel that is closed is closed to all receivers on its key. -/
theorem Hears.closed_reach (h : Hears keys w) :
    (w.reach (w.registry.subscribers key)).1.closed[n]? = some false ↔
      w.closed[n]? = some false ∧ keys[n]? ≠ some key := by
  rw [Waiters.closed_reach, h.mem_iff]
  exact and_congr_right fun hn => not_congr (and_iff_left hn)

theorem Hears.close (h : Hears keys w) (hclosing : closing key)
    (hregistry : w'.registry = (w.registry.close key).1)
    (hclosed : w'.closed = (w.reach (w.registry.subscribers key)).1.closed) :
    Shuts closing keys w w' where
  hears := by
    refine ⟨?_, ?_⟩
    · rw [hclosed, ← h.length_eq]
      simp [reach]
    · intro n key'
      rw [hregistry, mem_subscribers_close, h.mem_iff, hclosed, h.closed_reach, and_assoc]
      refine and_congr_right fun hkey' => and_congr_right fun _ => ?_
      rw [hkey', ne_eq, ne_eq, Option.some_inj]
  shut hn := (h.closed_reach.1 (hclosed ▸ hn)).1
  spared hkey' hnot hn := by
    rw [hclosed]
    refine h.closed_reach.2 ⟨hn, fun hkey => hnot ?_⟩
    rw [hkey', Option.some_inj] at hkey
    exact hkey ▸ hclosing

/-- A look closes a channel at most where it may. -/
theorem Orderly.shuts {c : Clock Nat} {rest : List Nat} (h : Orderly closing c w)
    (hready : c.ready = n :: rest) (hw : Hears keys w)
    {look : Waiters × List (Clock.Request Nat)} (hlook : Looks c.now n w look) :
    Shuts closing keys w look.1 := by
  cases hlook with
  | gone hnone => exact hw.shuts
  | sleeps hx hlistens hlt => exact hw.shuts
  | subscribes hx hfresh hgoal hlt =>
      exact hw.untouched (by simp [mem_subscribers_subscribe]) rfl
  | due hx hquiet hdue hregistry => exact hw.untouched (by simp [hregistry]) rfl
  | finds hx hfresh hgoal =>
      have hclosing := h.entitled (hready ▸ List.mem_cons_self) hx hfresh hgoal
      exact hw.close hclosing rfl rfl

theorem settleWithin_shuts (h : Orderly closing r.clock r.state) (hw : Hears keys r.state)
    (bound : Nat) : Shuts closing keys r.state (Run.settleWithin program bound r).state := by
  induction bound generalizing r with
  | zero => exact hw.shuts
  | succ bound ih =>
      cases hready : r.clock.ready with
      | nil =>
          rw [Run.settleWithin_of_ready program hready]
          exact hw.shuts
      | cons n rest =>
          have hshuts := h.shuts hready hw (looks r.clock.now n r.state)
          simp only [Run.settleWithin, hready]
          exact hshuts.trans
            (ih (r := .put ⟨{ r.clock with ready := rest }, r.state⟩ (look r.clock.now n r.state))
              (h.look hready (looks r.clock.now n r.state)).2.1 hshuts.hears)

theorem Orderly.shuts_settle (h : Orderly closing r.clock r.state) (hw : Hears keys r.state) :
    Shuts closing keys r.state (r.settle program).state := settleWithin_shuts h hw _

/-- While time passes, no channel is closed. -/
theorem Resting.shuts_approach (h : Resting r) (hw : Hears keys r.state) (instant : Nat) :
    Shuts (fun _ => False) keys r.state ((r.approach program instant).settle program).state := by
  fun_induction Run.approach program instant r with
  | case1 r hnone => exact (h.orderly_moveTo instant).shuts_settle (r := ⟨_, r.state⟩) hw
  | case2 r next hnext hbetween ih =>
      have hshuts := (h.orderly_moveTo next).shuts_settle (r := ⟨_, r.state⟩) hw
      have hresting := (h.moveTo fun a ha => h.orderly.sorted.nextAlarm_le hnext ha).1
      exact hshuts.trans (ih hresting hshuts.hears)
  | case3 r next hnext hbetween =>
      exact (h.orderly_moveTo instant).shuts_settle (r := ⟨_, r.state⟩) hw

/-- Whoever is to look first, and finds its goal, closes the channel of its key. -/
theorem Orderly.shuts_first {c : Clock Nat} {rest : List Nat} {x : Waiter}
    (h : Orderly closing c w) (hready : c.ready = i :: rest) (hx : w.waiting[i]? = some x)
    (hfresh : ¬w.Listens i x.key) (hgoal : x.goal ≤ w.counter) (hw : Hears keys w)
    (hkey : keys[n]? = some x.key) : (Run.settle program ⟨c, w⟩).state.closed[n]? ≠ some false := by
  have hlook : Looks c.now i w (Waiters.look c.now i w) := looks c.now i w
  have hfirst : (Waiters.look c.now i w).1.closed[n]? ≠ some false := by
    generalize Waiters.look c.now i w = looked at hlook
    cases hlook with
    | gone hnone => simp [hnone] at hx
    | sleeps hy hlistens hlt =>
        obtain rfl := Option.some_inj.1 (hy.symm.trans hx)
        exact absurd hlistens hfresh
    | subscribes hy hfresh' hgoal' hlt =>
        obtain rfl := Option.some_inj.1 (hy.symm.trans hx)
        exact absurd hgoal hgoal'
    | due hy hquiet hdue hregistry =>
        obtain rfl := Option.some_inj.1 (hy.symm.trans hx)
        exact absurd hgoal (hquiet.resolve_left hfresh)
    | finds hy hfresh' hgoal' =>
        obtain rfl := Option.some_inj.1 (hy.symm.trans hx)
        exact fun hn => (hw.closed_reach.1 hn).2 hkey
  have hnext := (h.look hready hlook).2.1
  have heffort : program.effort c.ready.length w =
      rest.length + (w.waiting.size + 1) * (w.waiting.size + 1) + 1 := by
    simp only [program, hready, List.length_cons]
    omega
  intro hn
  rw [Run.settle, heffort, Run.settleWithin] at hn
  simp only [hready] at hn
  have hrest := settleWithin_shuts
    (r := .put ⟨{ c with ready := rest }, w⟩ (Waiters.look c.now i w)) hnext
    (h.shuts hready hw hlook).hears (rest.length + (w.waiting.size + 1) * (w.waiting.size + 1))
  exact hfirst (hrest.shut hn)

/-! ### Receivers of a run -/

/-- The receiver that a step lets subscribe, with the number of the step. -/
def Step.opens (i : Nat) : Step → List (Nat × Int)
  | .subscribe key => [(i, key)]
  | _ => []

/-- The receivers of a run, each with the number of its step and its key. -/
def receivers (steps : List Step) : List (Nat × Int) :=
  steps.zipIdx.flatMap fun s => s.1.opens s.2

/-- A step after step `i` closes the channel of a key. -/
def ClosedSince (steps : List Step) (i : Nat) (key : Int) : Prop :=
  ∃ j s, i < j ∧ steps[j]? = some s ∧ s.Closes (count (steps.take (j + 1))) key

/-- A run has closed the channels of its receivers as it should. -/
structure Heard (steps : List Step) (w : Waiters) : Prop where
  hears : Hears ((receivers steps).map Prod.snd) w
  open_iff : ∀ {n i : Nat} {key : Int}, (receivers steps)[n]? = some (i, key) →
    (w.closed[n]? = some false ↔ ¬ClosedSince steps i key)

variable {steps : List Step} {s : Step}

theorem receivers_concat (steps : List Step) (s : Step) :
    receivers (steps ++ [s]) = receivers steps ++ s.opens steps.length := by
  simp [receivers, List.zipIdx_append]

theorem lt_of_mem_receivers (h : (i, key) ∈ receivers steps) : i < steps.length := by
  obtain ⟨⟨s, j⟩, hs, hmem⟩ := List.mem_flatMap.1 h
  have hlt : j < steps.length := by simpa using (List.mem_zipIdx hs).2.1
  cases s with
  | subscribe k =>
      obtain ⟨rfl, -⟩ : i = j ∧ key = k := by simpa [Step.opens] using hmem
      exact hlt
  | wait name k span goal => cases hmem
  | set count => cases hmem
  | notify k => cases hmem
  | advance span => cases hmem

theorem closedSince_concat : ClosedSince (steps ++ [s]) i key ↔
    ClosedSince steps i key ∨ i < steps.length ∧ s.Closes (s.count (count steps)) key := by
  constructor
  · rintro ⟨j, s', hij, hget, hcloses⟩
    rcases Nat.lt_or_ge j steps.length with hlt | hge
    · rw [List.getElem?_append_left hlt] at hget
      rw [List.take_append_of_le_length hlt] at hcloses
      exact .inl ⟨j, s', hij, hget, hcloses⟩
    · have hlt := (List.getElem?_eq_some_iff.1 hget).1
      rw [List.length_append, List.length_singleton] at hlt
      obtain rfl : j = steps.length := Nat.le_antisymm (Nat.le_of_lt_succ hlt) hge
      rw [List.getElem?_concat_length, Option.some_inj] at hget
      rw [List.take_of_length_le (by simp), count_concat, ← hget] at hcloses
      exact .inr ⟨hij, hcloses⟩
  · rintro (⟨j, s', hij, hget, hcloses⟩ | ⟨hi, hcloses⟩)
    · have hlt := (List.getElem?_eq_some_iff.1 hget).1
      refine ⟨j, s', hij, by rwa [List.getElem?_append_left hlt], ?_⟩
      rwa [List.take_append_of_le_length hlt]
    · refine ⟨steps.length, s, hi, List.getElem?_concat_length, ?_⟩
      rwa [List.take_of_length_le (by simp), count_concat]

/-- A step without a new receiver closes the channels that it should. -/
theorem Heard.next (h : Heard steps w) (hopens : s.opens steps.length = [])
    (hshuts : Shuts (fun key => s.Closes (s.count (count steps)) key)
      ((receivers steps).map Prod.snd) w w')
    (hcloses : ∀ {n : Nat} {key : Int}, ((receivers steps).map Prod.snd)[n]? = some key →
      s.Closes (s.count (count steps)) key → w'.closed[n]? ≠ some false) :
    Heard (steps ++ [s]) w' := by
  have hreceivers : receivers (steps ++ [s]) = receivers steps := by
    rw [receivers_concat, hopens, List.append_nil]
  refine ⟨hreceivers ▸ hshuts.hears, fun {n i key} hn => ?_⟩
  rw [hreceivers] at hn
  have hkey : ((receivers steps).map Prod.snd)[n]? = some key := by
    rw [List.getElem?_map, hn]
    rfl
  have hlt := lt_of_mem_receivers (List.mem_of_getElem? hn)
  rw [closedSince_concat, not_or, ← h.open_iff hn, and_iff_right hlt]
  exact ⟨fun hopen => ⟨hshuts.shut hopen, fun hnow => hcloses hkey hnow hopen⟩,
    fun ⟨hopen, hnot⟩ => hshuts.spared hkey hnot hopen⟩

/-- A receiver that subscribes listens on the channel of its key. -/
theorem Hears.subscribe (h : Hears keys w) (k : Int) :
    Hears (keys ++ [k]) { w with
      registry := w.registry.subscribe k (.receiver w.closed.length)
      closed := w.closed ++ [false] } where
  length_eq := by simp [h.length_eq]
  mem_iff := by
    intro n key
    rw [mem_subscribers_subscribe, h.mem_iff, Subscriber.receiver.injEq]
    rcases Nat.lt_trichotomy n keys.length with hlt | heq | hgt
    · rw [List.getElem?_append_left hlt, List.getElem?_append_left (h.length_eq ▸ hlt)]
      exact or_iff_left fun hnew => Nat.ne_of_lt hlt (hnew.1.trans h.length_eq)
    · have heq' : n = w.closed.length := heq.trans h.length_eq.symm
      rw [heq', List.getElem?_concat_length, ← heq', heq, List.getElem?_concat_length]
      simp [eq_comm]
    · have hne : n ≠ w.closed.length := h.length_eq ▸ Nat.ne_of_gt hgt
      rw [List.getElem?_eq_none (Nat.le_of_lt hgt), List.getElem?_eq_none (l := keys ++ [k])]
      · simp [hne]
      · simpa using Nat.succ_le_of_lt hgt

theorem not_closedSince_self : ¬ClosedSince steps steps.length key := by
  rintro ⟨j, s, hlt, hget, -⟩
  exact Nat.lt_asymm hlt (List.getElem?_eq_some_iff.1 hget).1

theorem Heard.subscribe (h : Heard steps w) (k : Int) :
    Heard (steps ++ [.subscribe k]) { w with
      registry := w.registry.subscribe k (.receiver w.closed.length)
      closed := w.closed ++ [false] } := by
  have hlength : w.closed.length = (receivers steps).length := by
    simpa using h.hears.length_eq
  have hreceivers : receivers (steps ++ [.subscribe k]) =
      receivers steps ++ [(steps.length, k)] := receivers_concat steps (.subscribe k)
  refine ⟨?_, fun {n i key} hn => ?_⟩
  · rw [hreceivers, List.map_append]
    exact h.hears.subscribe k
  · rw [hreceivers] at hn
    rw [closedSince_concat]
    simp only [Step.Closes, and_false, or_false]
    rcases Nat.lt_or_ge n (receivers steps).length with hlt | hge
    · rw [List.getElem?_append_left hlt] at hn
      rw [List.getElem?_append_left (hlength ▸ hlt)]
      exact h.open_iff hn
    · have hn' := (List.getElem?_eq_some_iff.1 hn).1
      rw [List.length_append, List.length_singleton] at hn'
      obtain rfl : n = (receivers steps).length := Nat.le_antisymm (Nat.le_of_lt_succ hn') hge
      rw [List.getElem?_concat_length, Option.some_inj] at hn
      cases hn
      rw [← hlength, List.getElem?_concat_length]
      exact iff_of_true rfl not_closedSince_self

/-- Every step closes the channels that it should. -/
theorem Heard.step (h : Heard steps r.state) (ht : Tracks steps r) (s : Step) :
    Heard (steps ++ [s]) (perform r s).state := by
  cases s with
  | wait name k span goal =>
      have horderly := ht.resting.wait ⟨name, k, r.now + span, goal⟩
      rw [ht.counter_eq] at horderly
      have hstarted : Shuts (fun key => key = k ∧ goal ≤ count steps)
          ((receivers steps).map Prod.snd) r.state
          { r.state with
            waiting := r.state.waiting.insert r.state.spawned ⟨name, k, r.now + span, goal⟩
            spawned := r.state.spawned + 1 } := h.hears.untouched Iff.rfl rfl
      refine h.next rfl
        (hstarted.trans (horderly.shuts_settle (r := ⟨_, _⟩) hstarted.hears)) fun hkey hcloses => ?_
      obtain ⟨rfl, hgoal⟩ := hcloses
      have hready : (r.clock.wake r.state.spawned).ready = [r.state.spawned] := by
        simp [Clock.wake, ht.resting.ready_eq]
      have hsilent : ∀ key, ¬r.state.Listens r.state.spawned key := by
        intro key hlistens
        obtain ⟨x, hx, -⟩ := ht.resting.orderly.listening hlistens
        simp [ht.resting.fresh] at hx
      refine horderly.shuts_first hready Std.ExtTreeMap.getElem?_insert_self (hsilent _) ?_
        hstarted.hears hkey
      rw [ht.counter_eq]
      exact hgoal
  | subscribe k =>
      have hsettled : perform r (.subscribe k) = ⟨r.clock, { r.state with
          registry := r.state.registry.subscribe k (.receiver r.state.closed.length)
          closed := r.state.closed ++ [false] }⟩ :=
        Run.settleWithin_of_ready program (by exact ht.resting.ready_eq) _
      rw [hsettled]
      exact h.subscribe k
  | set count =>
      have horderly : Orderly (fun _ => False) r.clock { r.state with counter := count } :=
        ht.resting.untouched Iff.rfl rfl rfl
      have hset : Shuts (fun _ => False) ((receivers steps).map Prod.snd) r.state
          { r.state with counter := count } := h.hears.untouched Iff.rfl rfl
      exact h.next rfl (hset.trans (horderly.shuts_settle (r := ⟨_, _⟩) hset.hears))
        fun _ hnever => hnever.elim
  | notify k =>
      have hclosed : Shuts (fun key => key = k) ((receivers steps).map Prod.snd) r.state
          { r.state with
            registry := (r.state.registry.close k).1
            closed := (r.state.reach (r.state.registry.subscribers k)).1.closed } :=
        h.hears.close rfl rfl rfl
      have hsettled := (ht.resting.notify k _).shuts_settle (r := ⟨_, _⟩) hclosed.hears
      refine h.next rfl (hclosed.trans hsettled) fun hkey hcloses hopen => ?_
      obtain rfl := hcloses
      exact (h.hears.closed_reach.1 (hsettled.shut hopen)).2 hkey
  | advance span =>
      have hpassed := ht.resting.shuts_approach h.hears (r.now + Clock.measured span)
      refine h.next rfl ?_ fun _ hnever => hnever.elim
      change Shuts _ _ r.state (Run.advance program span r).state
      rw [Run.advance, ht.resting.settle_eq]
      exact hpassed

theorem heard (steps : List Step) : Heard steps (after steps).state := by
  induction steps using List.reverseRecOn with
  | nil => exact ⟨⟨rfl, by simp [after, start, receivers]⟩, by simp [receivers]⟩
  | append_singleton steps s ih =>
      rw [after_concat]
      exact ih.step (tracks steps) s

/-- The channel of a receiver has been closed just if a later step closes the channel of its key. -/
theorem receiver_closed_iff (steps : List Step) :
    (after steps).state.closed.length = (receivers steps).length ∧
      ∀ (n i : Nat) (key : Int), (receivers steps)[n]? = some (i, key) →
        ((after steps).state.closed[n]? = some true ↔ ClosedSince steps i key) := by
  have hlength : (after steps).state.closed.length = (receivers steps).length := by
    simpa using (heard steps).hears.length_eq
  refine ⟨hlength, fun n i key hn => ?_⟩
  have hlt : n < (after steps).state.closed.length :=
    hlength ▸ (List.getElem?_eq_some_iff.1 hn).1
  rw [← not_iff_not, ← (heard steps).open_iff hn, List.getElem?_eq_getElem hlt]
  simp

end WitnessReplication.Registry.Waiters
