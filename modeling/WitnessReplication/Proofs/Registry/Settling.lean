import Mathlib.Data.List.Nodup
import Mathlib.Data.List.Perm.Subperm
import WitnessReplication.Registry.Waiters
import WitnessReplication.Proofs.Alarms
import WitnessReplication.Proofs.Registry.Looking
import WitnessReplication.Proofs.Tables

/-!
# Waiters settle

What the waiters on a registry do until no task is in the queue. Between their looks everything is
in order (`Orderly`): a waiter is in the queue, or it listens on the channel of its key and has set
its alarm. So whoever closes a channel wakes all who listen there.

When they have settled, just those waits have ended whose deadline has come, or whose goal holds
while the channel of their key was closed (`Orderly.settle`). The looks that settling is granted are
enough: a look takes a task out of the queue, and it ends a wait if it wakes others.
-/

namespace WitnessReplication.Registry

/-- How a wait ends at an instant: its goal holds, or it has run out of time. -/
def Waiter.verdict (x : Waiter) (counter : Int) (instant : Nat) : Ended :=
  ⟨x.name, if x.goal ≤ counter then .notified else .timedOut, instant⟩

namespace Waiters

variable {now n m : Nat} {key : Int} {w w' w'' : Waiters} {x y : Waiter} {e : Ended}

/-- A waiter is subscribed to a key's channel. -/
def Listens (w : Waiters) (n : Nat) (key : Int) : Prop := .waiter n ∈ w.registry.subscribers key

/-! ### One look -/

/-- What a look of a waiter does, and what it asks of the clock. -/
inductive Looks (now n : Nat) (w : Waiters) : Waiters × List (Clock.Request Nat) → Prop
  /-- The wait has ended before. -/
  | gone (hnone : w.waiting[n]? = none) : Looks now n w (w, [])
  /-- Nothing has happened that the waiter waits for. -/
  | sleeps {x : Waiter} (hx : w.waiting[n]? = some x) (hlistens : w.Listens n x.key)
      (hlt : now < x.deadline) : Looks now n w (w, [])
  /-- The goal does not hold yet, and the waiter subscribes afresh. -/
  | subscribes {x : Waiter} (hx : w.waiting[n]? = some x) (hfresh : ¬w.Listens n x.key)
      (hgoal : ¬x.goal ≤ w.counter) (hlt : now < x.deadline) :
      Looks now n w ({ w with registry := w.registry.subscribe x.key (.waiter n) },
        [.alarm n x.deadline])
  /-- The deadline has come, and the waiter leaves without closing a channel. -/
  | due {x : Waiter} {registry : Registry Int Subscriber} (hx : w.waiting[n]? = some x)
      (hquiet : w.Listens n x.key ∨ ¬x.goal ≤ w.counter) (hdue : x.deadline ≤ now)
      (hregistry : ∀ t key, t ∈ registry.subscribers key ↔
        t ∈ w.registry.subscribers key ∧ ¬(t = .waiter n ∧ key = x.key)) :
      Looks now n w
        ({ w with
            registry
            waiting := w.waiting.erase n
            ended := w.ended ++ [x.verdict w.counter now] }, [.calm n])
  /-- The goal holds on a fresh look, and the waiter closes the channel. -/
  | finds {x : Waiter} (hx : w.waiting[n]? = some x) (hfresh : ¬w.Listens n x.key)
      (hgoal : x.goal ≤ w.counter) :
      Looks now n w
        ({ ({ w with registry := (w.registry.close x.key).1 }.reach
              (w.registry.subscribers x.key)).1 with
            waiting := w.waiting.erase n
            ended := w.ended ++ [x.verdict w.counter now] },
          (w.reach (w.registry.subscribers x.key)).2 ++ [.calm n])

theorem reach_nil (w : Waiters) : w.reach [] = (w, []) := by
  simp [reach, List.mapIdx_eq_zipIdx_map]

theorem looks (now n : Nat) (w : Waiters) : Looks now n w (look now n w) := by
  unfold look
  cases hx : w.waiting[n]? with
  | none => exact .gone hx
  | some x =>
      dsimp only
      by_cases hlistens : w.Listens n x.key
      · have hsub : w.registry.isSubscribed x.key (.waiter n) = true :=
          isSubscribed_eq_true.2 hlistens
        by_cases hdue : x.deadline ≤ now
        · have hlook := Looks.due hx (.inl hlistens) hdue
            fun t key => mem_subscribers_unsubscribe (r := w.registry) (t := .waiter n)
          by_cases hgoal : x.goal ≤ w.counter <;>
            simpa [Registry.look, hsub, hdue, hgoal, reach_nil, Waiter.verdict] using hlook
        · have hlook := Looks.sleeps hx hlistens (Nat.lt_of_not_le hdue)
          simpa [Registry.look, hsub, hdue, reach_nil] using hlook
      · have hsub : w.registry.isSubscribed x.key (.waiter n) = false :=
          Bool.eq_false_iff.2 fun h => hlistens (isSubscribed_eq_true.1 h)
        by_cases hgoal : x.goal ≤ w.counter
        · have hlook : Looks now n w _ := .finds hx hlistens hgoal
          simpa [Registry.look, hsub, hgoal, Waiter.verdict, reach, close] using hlook
        · by_cases hdue : x.deadline ≤ now
          · have hregistry : ∀ t key,
                t ∈ ((w.registry.subscribe x.key (.waiter n)).unsubscribe x.key
                    (.waiter n)).subscribers key ↔
                  t ∈ w.registry.subscribers key ∧ ¬(t = .waiter n ∧ key = x.key) := by
              intro t key
              rw [mem_subscribers_unsubscribe, mem_subscribers_subscribe]
              exact and_congr_left fun hother => or_iff_left hother
            have hlook := Looks.due hx (.inr hgoal) hdue hregistry
            simpa [Registry.look, hsub, hgoal, hdue, reach_nil, Waiter.verdict] using hlook
          · have hlook := Looks.subscribes hx hlistens hgoal (Nat.lt_of_not_le hdue)
            simpa [Registry.look, hsub, hgoal, hdue, reach_nil] using hlook

/-! ### Between looks -/

/-- Everything is in order between two looks, where only the channels of some keys are closed. -/
structure Orderly (closing : Int → Prop) (c : Clock Nat) (w : Waiters) : Prop where
  nodup : c.ready.Nodup
  sorted : c.Sorted
  ahead : ∀ {a}, a ∈ c.alarms → c.now < a.1
  alarm : ∀ {a}, a ∈ c.alarms → ∃ x, w.waiting[a.2]? = some x ∧ x.deadline = a.1
  listening : ∀ {n key}, w.Listens n key → ∃ x, w.waiting[n]? = some x ∧ x.key = key
  spawned : ∀ {n x}, w.waiting[n]? = some x → n < w.spawned
  /-- Who is not in the queue listens and has set an alarm. -/
  served : ∀ {n x}, w.waiting[n]? = some x →
    n ∈ c.ready ∨ w.Listens n x.key ∧ (x.deadline, n) ∈ c.alarms
  /-- Who is in the queue and still listens has been woken by its alarm. -/
  due : ∀ {n x}, n ∈ c.ready → w.waiting[n]? = some x → w.Listens n x.key → x.deadline ≤ c.now
  /-- Who is about to close a channel may do so. -/
  entitled : ∀ {n x}, n ∈ c.ready → w.waiting[n]? = some x → ¬w.Listens n x.key →
    x.goal ≤ w.counter → closing x.key
  /-- Where a channel may be closed, whoever waits there for no more than what holds is in the queue
  or is about to be woken by someone in the queue. -/
  closer : ∀ {n x}, w.waiting[n]? = some x → closing x.key → x.goal ≤ w.counter →
    n ∈ c.ready ∨ ∃ m ∈ c.ready, ∃ y, w.waiting[m]? = some y ∧ y.key = x.key ∧
      ¬w.Listens m y.key ∧ y.goal ≤ w.counter

theorem wake_mem_reach {subs : List Subscriber} :
    .wake n ∈ (w.reach subs).2 ↔ .waiter n ∈ subs := by
  simp only [reach, List.mem_filterMap]
  constructor
  · rintro ⟨s, hs, heq⟩
    cases s with
    | waiter m => simpa using (show m = n by simpa using heq) ▸ hs
    | receiver m => simp at heq
  · exact fun hs => ⟨_, hs, rfl⟩

theorem of_mem_reach {subs : List Subscriber} {request : Clock.Request Nat}
    (h : request ∈ (w.reach subs).2) : ∃ n, request = .wake n := by
  obtain ⟨s, -, heq⟩ := List.mem_filterMap.1 h
  cases s with
  | waiter n => exact ⟨n, by simpa using heq.symm⟩
  | receiver n => simp at heq

/-- The close of a channel wakes those who listen there. -/
theorem mem_ready_reach {c : Clock Nat} :
    m ∈ (c.grantAll (w.reach (w.registry.subscribers key)).2).ready ↔
      m ∈ c.ready ∨ w.Listens m key := by
  rw [Clock.mem_ready_grantAll_iff, wake_mem_reach]
  · rfl
  · intro task instant hrequest
    obtain ⟨m, heq⟩ := of_mem_reach hrequest
    cases heq

theorem mem_alarms_reach {c : Clock Nat} {subs : List Subscriber} {a : Nat × Nat} :
    a ∈ (c.grantAll (w.reach subs).2).alarms ↔ a ∈ c.alarms := by
  rw [Clock.mem_alarms_grantAll]
  · refine and_iff_left fun hrequest => ?_
    obtain ⟨m, heq⟩ := of_mem_reach hrequest
    cases heq
  · intro task instant hrequest
    obtain ⟨m, heq⟩ := of_mem_reach hrequest
    cases heq

/-- An entry that is left when another is taken out was there before. -/
theorem getElem?_erase_eq_some {t : Std.ExtTreeMap Nat Waiter} :
    (t.erase n)[m]? = some y ↔ m ≠ n ∧ t[m]? = some y := by
  rw [Std.ExtTreeMap.getElem?_erase]
  by_cases hmn : n = m
  · simp [hmn]
  · simp [hmn, Ne.symm hmn]

section Looking

variable {closing : Int → Prop} {c : Clock Nat} {rest : List Nat}

theorem Orderly.key_eq (h : Orderly closing c w) (hy : w.waiting[m]? = some y)
    (hm : w.Listens m key) : y.key = key := by
  obtain ⟨z, hz, rfl⟩ := h.listening hm
  rw [Option.some_inj.1 (hy.symm.trans hz)]

/-- The first of the queue is in it once. -/
theorem Orderly.mem_rest (h : Orderly closing c w) (hready : c.ready = n :: rest) :
    m ∈ rest ↔ m ∈ c.ready ∧ m ≠ n := by
  have hout := (List.nodup_cons.1 (hready ▸ h.nodup)).1
  rw [hready, List.mem_cons]
  constructor
  · exact fun hm => ⟨.inr hm, fun heq => hout (heq ▸ hm)⟩
  · exact fun ⟨hm, hne⟩ => hm.resolve_left hne

theorem Orderly.congr (h : Orderly closing c w) {closing' : Int → Prop}
    (hiff : ∀ key, closing key ↔ closing' key) : Orderly closing' c w :=
  (funext fun key => propext (hiff key) : closing = closing') ▸ h

/-- A wait that has ended is out of the queue. -/
theorem Orderly.gone (h : Orderly closing c w) (hready : c.ready = n :: rest)
    (hnone : w.waiting[n]? = none) : Orderly closing { c with ready := rest } w := by
  have hmem : ∀ {m}, m ∈ rest → m ∈ c.ready := fun hm => ((h.mem_rest hready).1 hm).1
  have hrest : ∀ {m y}, m ∈ c.ready → w.waiting[m]? = some y → m ∈ rest := by
    intro m y hm hy
    refine (h.mem_rest hready).2 ⟨hm, ?_⟩
    rintro rfl
    simp [hnone] at hy
  exact { h with
    nodup := (List.nodup_cons.1 (hready ▸ h.nodup)).2
    served := fun hx => (h.served hx).imp_left fun hm => hrest hm hx
    due := fun hm => h.due (hmem hm)
    entitled := fun hm => h.entitled (hmem hm)
    closer := fun hx hkey hgoal => by
      rcases h.closer hx hkey hgoal with hm | ⟨m, hm, y, hy, hother⟩
      · exact .inl (hrest hm hx)
      · exact .inr ⟨m, hrest hm hy, y, hy, hother⟩ }

/-- A waiter whose goal does not hold yet listens and sets its alarm. -/
theorem Orderly.subscribes (h : Orderly closing c w) (hready : c.ready = n :: rest)
    (hx : w.waiting[n]? = some x) (hgoal : ¬x.goal ≤ w.counter) (hlt : c.now < x.deadline) :
    Orderly closing (Clock.setAlarm { c with ready := rest } n x.deadline)
      { w with registry := w.registry.subscribe x.key (.waiter n) } := by
  have hmem : ∀ {m}, m ∈ rest ↔ m ∈ c.ready ∧ m ≠ n := h.mem_rest hready
  have hnodup := (List.nodup_cons.1 (hready ▸ h.nodup)).2
  have hsorted : Clock.Sorted { c with ready := rest } := h.sorted
  have hlt' : Clock.now { c with ready := rest } < x.deadline := hlt
  have hqueue : (Clock.setAlarm { c with ready := rest } n x.deadline).ready = rest :=
    Clock.ready_setAlarm hlt'
  have halarms : ∀ {a}, a ∈ (Clock.setAlarm { c with ready := rest } n x.deadline).alarms ↔
      a = (x.deadline, n) ∨ a ∈ c.alarms ∧ a.2 ≠ n := Clock.mem_alarms_setAlarm hsorted hlt'
  have hlistens : ∀ {m key}, Listens { w with registry := w.registry.subscribe x.key (.waiter n) }
      m key ↔ w.Listens m key ∨ m = n ∧ key = x.key := by
    intro m key
    simp [Listens, mem_subscribers_subscribe]
  -- The goal of the waiter does not hold, so it is not the one to close the channel.
  have hnot : ∀ {m y}, w.waiting[m]? = some y → y.goal ≤ w.counter → m ≠ n := by
    rintro m y hy hgoal' rfl
    rw [hx] at hy
    cases hy
    exact hgoal hgoal'
  constructor
  case nodup => rwa [hqueue]
  case sorted => exact hsorted.setAlarm n x.deadline
  case ahead =>
    intro a ha
    rw [Clock.now_setAlarm]
    rcases halarms.1 ha with rfl | ⟨ha, -⟩
    · exact hlt
    · exact h.ahead ha
  case alarm =>
    intro a ha
    rcases halarms.1 ha with rfl | ⟨ha, -⟩
    · exact ⟨x, hx, rfl⟩
    · exact h.alarm ha
  case listening =>
    intro m key hm
    rcases hlistens.1 hm with hm | ⟨rfl, rfl⟩
    · exact h.listening hm
    · exact ⟨x, hx, rfl⟩
  case spawned => exact h.spawned
  case served =>
    intro m y hy
    rw [hqueue]
    by_cases hmn : m = n
    · subst hmn
      obtain rfl : x = y := Option.some_inj.1 (hx.symm.trans hy)
      exact .inr ⟨hlistens.2 (.inr ⟨rfl, rfl⟩), halarms.2 (.inl rfl)⟩
    · rcases h.served hy with hm | ⟨hm, halarm⟩
      · exact .inl (hmem.2 ⟨hm, hmn⟩)
      · exact .inr ⟨hlistens.2 (.inl hm), halarms.2 (.inr ⟨halarm, hmn⟩)⟩
  case due =>
    intro m y hm hy hlisten
    rw [hqueue, hmem] at hm
    rw [Clock.now_setAlarm]
    exact h.due hm.1 hy ((hlistens.1 hlisten).resolve_right fun hself => hm.2 hself.1)
  case entitled =>
    intro m y hm hy hfresh
    rw [hqueue, hmem] at hm
    exact h.entitled hm.1 hy fun hlisten => hfresh (hlistens.2 (.inl hlisten))
  case closer =>
    intro m y hy hkey hgoal'
    rw [hqueue]
    rcases h.closer hy hkey hgoal' with hm | ⟨m', hm', z, hz, hzkey, hfresh, hzgoal⟩
    · exact .inl (hmem.2 ⟨hm, hnot hy hgoal'⟩)
    · refine .inr ⟨m', hmem.2 ⟨hm', hnot hz hzgoal⟩, z, hz, hzkey, ?_, hzgoal⟩
      exact fun hlisten => (hlistens.1 hlisten).elim hfresh fun hself => hnot hz hzgoal hself.1

/-- A waiter that leaves takes its alarm and its place in the channel along. It is not the one to
close a channel on which others listen. -/
theorem Orderly.leaves (h : Orderly closing c w) {c' : Clock Nat}
    {registry : Registry Int Subscriber} (ended : List Ended) (hnodup : c'.ready.Nodup)
    (hsorted : c'.Sorted) (hnow : c'.now = c.now)
    (hqueue : ∀ m, m ∈ c'.ready ↔ m ∈ c.ready ∧ m ≠ n)
    (halarms : ∀ a, a ∈ c'.alarms ↔ a ∈ c.alarms ∧ a.2 ≠ n)
    (hx : w.waiting[n]? = some x)
    (hquiet : (w.Listens n x.key ∨ ¬x.goal ≤ w.counter) ∨ ∀ m, ¬w.Listens m x.key)
    (hregistry : ∀ t key, t ∈ registry.subscribers key ↔
      t ∈ w.registry.subscribers key ∧ ¬(t = .waiter n ∧ key = x.key)) :
    Orderly closing c' { w with registry, waiting := w.waiting.erase n, ended } := by
  constructor
  case nodup => exact hnodup
  case sorted => exact hsorted
  case ahead =>
    intro a ha
    rw [hnow]
    exact h.ahead ((halarms a).1 ha).1
  case alarm =>
    intro a ha
    obtain ⟨ha, hne⟩ := (halarms a).1 ha
    obtain ⟨y, hy, hdeadline⟩ := h.alarm ha
    exact ⟨y, getElem?_erase_eq_some.2 ⟨hne, hy⟩, hdeadline⟩
  case listening =>
    intro m key hm
    obtain ⟨hlisten, hother⟩ := (hregistry _ _).1 hm
    obtain ⟨y, hy, hkey⟩ := h.listening hlisten
    refine ⟨y, getElem?_erase_eq_some.2 ⟨?_, hy⟩, hkey⟩
    rintro rfl
    exact hother ⟨rfl, (h.key_eq hx hlisten).symm⟩
  case spawned => exact fun hy => h.spawned (getElem?_erase_eq_some.1 hy).2
  case served =>
    intro m y hy
    obtain ⟨hne, hy⟩ := getElem?_erase_eq_some.1 hy
    rcases h.served hy with hm | ⟨hm, halarm⟩
    · exact .inl ((hqueue m).2 ⟨hm, hne⟩)
    · exact .inr ⟨(hregistry _ _).2 ⟨hm, by simp [hne]⟩, (halarms _).2 ⟨halarm, hne⟩⟩
  case due =>
    intro m y hm hy hlisten
    rw [hnow]
    exact h.due ((hqueue m).1 hm).1 (getElem?_erase_eq_some.1 hy).2 ((hregistry _ _).1 hlisten).1
  case entitled =>
    intro m y hm hy hfresh
    obtain ⟨hne, hy⟩ := getElem?_erase_eq_some.1 hy
    exact h.entitled ((hqueue m).1 hm).1 hy fun hlisten =>
      hfresh ((hregistry _ _).2 ⟨hlisten, by simp [hne]⟩)
  case closer =>
    intro m y hleft hkey hgoal
    obtain ⟨hne, hy⟩ := getElem?_erase_eq_some.1 hleft
    rcases h.closer hy hkey hgoal with hm | ⟨m', hm', z, hz, hzkey, hfresh, hzgoal⟩
    · exact .inl ((hqueue m).2 ⟨hm, hne⟩)
    · by_cases hne' : m' = n
      · subst hne'
        obtain rfl : x = z := Option.some_inj.1 (hx.symm.trans hz)
        have hnobody := hquiet.resolve_left fun hsilent => hsilent.elim hfresh fun hnot => hnot hzgoal
        rcases h.served hy with hm | ⟨hlisten, -⟩
        · exact .inl ((hqueue m).2 ⟨hm, hne⟩)
        · exact absurd (hzkey ▸ hlisten) (hnobody m)
      · exact .inr ⟨m', (hqueue m').2 ⟨hm', hne'⟩, z, getElem?_erase_eq_some.2 ⟨hne', hz⟩, hzkey,
          fun hlisten => hfresh ((hregistry _ _).1 hlisten).1, hzgoal⟩

/-- The close of a channel wakes whoever listens there. -/
theorem Orderly.close (h : Orderly closing c w) (key : Int) (closed : List Bool) :
    Orderly (fun k => k = key ∨ closing k)
      (c.grantAll (w.reach (w.registry.subscribers key)).2)
      { w with registry := (w.registry.close key).1, closed } := by
  have hlistens : ∀ {m k}, .waiter m ∈ (w.registry.close key).1.subscribers k ↔
      w.Listens m k ∧ k ≠ key := mem_subscribers_close
  constructor
  case nodup => exact Clock.nodup_ready_grantAll h.nodup _
  case sorted => exact h.sorted.grantAll _
  case ahead =>
    intro a ha
    rw [Clock.now_grantAll]
    exact h.ahead (mem_alarms_reach.1 ha)
  case alarm => exact fun ha => h.alarm (mem_alarms_reach.1 ha)
  case listening => exact fun hm => h.listening (hlistens.1 hm).1
  case spawned => exact h.spawned
  case served =>
    intro m y hy
    rcases h.served hy with hm | ⟨hm, halarm⟩
    · exact .inl (mem_ready_reach.2 (.inl hm))
    · by_cases hkey : y.key = key
      · exact .inl (mem_ready_reach.2 (.inr (hkey ▸ hm)))
      · exact .inr ⟨hlistens.2 ⟨hm, hkey⟩, mem_alarms_reach.2 halarm⟩
  case due =>
    intro m y hm hy hlisten
    obtain ⟨hlisten, hkey⟩ := hlistens.1 hlisten
    rw [Clock.now_grantAll]
    rcases mem_ready_reach.1 hm with hm | hm
    · exact h.due hm hy hlisten
    · exact absurd (h.key_eq hy hm) hkey
  case entitled =>
    intro m y hm hy hfresh hgoal
    by_cases hkey : y.key = key
    · exact .inl hkey
    · rcases mem_ready_reach.1 hm with hm | hm
      · exact .inr (h.entitled hm hy (fun hlisten => hfresh (hlistens.2 ⟨hlisten, hkey⟩)) hgoal)
      · exact absurd (h.key_eq hy hm) hkey
  case closer =>
    intro m y hy hkey hgoal
    rcases hkey with rfl | hkey
    · refine .inl (mem_ready_reach.2 ?_)
      exact (h.served hy).imp_right And.left
    · rcases h.closer hy hkey hgoal with hm | ⟨m', hm', z, hz, hzkey, hfresh, hzgoal⟩
      · exact .inl (mem_ready_reach.2 (.inl hm))
      · exact .inr ⟨m', mem_ready_reach.2 (.inl hm'), z, hz, hzkey,
          fun hlisten => hfresh (hlistens.1 hlisten).1, hzgoal⟩

/-- A waiter that finds its goal closes the channel of its key and leaves. -/
theorem Orderly.finds (h : Orderly closing c w) (hready : c.ready = n :: rest)
    (hx : w.waiting[n]? = some x) (hfresh : ¬w.Listens n x.key) (hgoal : x.goal ≤ w.counter)
    (ended : List Ended) (closed : List Bool) :
    Orderly closing
      (Clock.grantAll { c with ready := rest }
        ((w.reach (w.registry.subscribers x.key)).2 ++ [.calm n]))
      { w with
        registry := (w.registry.close x.key).1
        waiting := w.waiting.erase n
        ended
        closed } := by
  have hnodup := (List.nodup_cons.1 (hready ▸ h.nodup)).2
  have hclosing : closing x.key := h.entitled (hready ▸ List.mem_cons_self) hx hfresh hgoal
  have hclosed := (h.close x.key closed).congr fun key =>
    or_iff_right_of_imp fun heq => heq ▸ hclosing
  have hlistens : ∀ {m}, .waiter m ∉ (w.registry.close x.key).1.subscribers x.key := fun hm =>
    (mem_subscribers_close.1 hm).2 rfl
  refine hclosed.leaves ended ?_ ?_ ?_ (fun m => ?_) (fun a => ?_) hx (.inr fun m => hlistens)
    fun t key => (and_iff_left_of_imp fun ht => ?_).symm
  · exact Clock.nodup_ready_grantAll (c := { c with ready := rest }) hnodup _
  · exact Clock.Sorted.grantAll (c := { c with ready := rest }) h.sorted _
  · rw [Clock.now_grantAll, Clock.now_grantAll]
  · rw [Clock.grantAll_concat, mem_ready_reach]
    refine mem_ready_reach.trans ?_
    rw [h.mem_rest hready]
    constructor
    · rintro (⟨hm, hne⟩ | hm)
      · exact ⟨.inl hm, hne⟩
      · exact ⟨.inr hm, fun heq => hfresh (heq ▸ hm)⟩
    · rintro ⟨hm | hm, hne⟩
      · exact .inl ⟨hm, hne⟩
      · exact .inr hm
  · rw [Clock.grantAll_concat, mem_alarms_reach]
    exact Clock.mem_alarms_calm.trans (and_congr_left' mem_alarms_reach)
  · rintro ⟨rfl, rfl⟩
    exact hlistens ht

end Looking

/-! ### Waits that end -/

/-- Some waits have ended, each as `P` says, and all others go on. -/
structure Finishes (P : Waiter → Ended → Prop) (w : Waiters) (gone : List (Nat × Ended))
    (w' : Waiters) : Prop where
  counter_eq : w'.counter = w.counter
  spawned_eq : w'.spawned = w.spawned
  ended_eq : w'.ended = w.ended ++ gone.map Prod.snd
  nodup : (gone.map Prod.fst).Nodup
  waiting_iff : ∀ {n x}, w'.waiting[n]? = some x ↔
    w.waiting[n]? = some x ∧ n ∉ gone.map Prod.fst
  ends : ∀ {n e}, (n, e) ∈ gone → ∃ x, w.waiting[n]? = some x ∧ P x e

section Finishing

variable {P Q : Waiter → Ended → Prop} {gone gone' : List (Nat × Ended)}

theorem Finishes.mono (h : Finishes P w gone w') (himp : ∀ {x e}, P x e → Q x e) :
    Finishes Q w gone w' where
  counter_eq := h.counter_eq
  spawned_eq := h.spawned_eq
  ended_eq := h.ended_eq
  nodup := h.nodup
  waiting_iff := h.waiting_iff
  ends hmem := by
    obtain ⟨x, hx, hP⟩ := h.ends hmem
    exact ⟨x, hx, himp hP⟩

theorem Finishes.none (hcounter : w'.counter = w.counter) (hspawned : w'.spawned = w.spawned)
    (hended : w'.ended = w.ended) (hwaiting : w'.waiting = w.waiting) : Finishes P w [] w' where
  counter_eq := hcounter
  spawned_eq := hspawned
  ended_eq := by simp [hended]
  nodup := by simp
  waiting_iff := by simp [hwaiting]
  ends hmem := by simp at hmem

theorem Finishes.one (hx : w.waiting[n]? = some x) (hP : P x e)
    {registry : Registry Int Subscriber} {closed : List Bool} :
    Finishes P w [(n, e)]
      { w with registry, waiting := w.waiting.erase n, ended := w.ended ++ [e], closed } where
  counter_eq := rfl
  spawned_eq := rfl
  ended_eq := rfl
  nodup := by simp
  waiting_iff := by
    intro m y
    rw [getElem?_erase_eq_some]
    simp [and_comm]
  ends hmem := by
    obtain ⟨rfl, rfl⟩ : _ = n ∧ _ = e := by simpa using hmem
    exact ⟨x, hx, hP⟩

theorem Finishes.trans (h : Finishes P w gone w') (h' : Finishes P w' gone' w'') :
    Finishes P w (gone ++ gone') w'' where
  counter_eq := h'.counter_eq.trans h.counter_eq
  spawned_eq := h'.spawned_eq.trans h.spawned_eq
  ended_eq := by rw [h'.ended_eq, h.ended_eq, List.map_append, List.append_assoc]
  nodup := by
    rw [List.map_append, List.nodup_append]
    refine ⟨h.nodup, h'.nodup, fun n hn m hm => ?_⟩
    rintro rfl
    obtain ⟨⟨n, e⟩, hmem, rfl⟩ := List.mem_map.1 hm
    obtain ⟨x, hx, -⟩ := h'.ends hmem
    exact (h.waiting_iff.1 hx).2 hn
  waiting_iff := by
    intro n x
    rw [h'.waiting_iff, h.waiting_iff, List.map_append, List.mem_append, not_or, and_assoc]
  ends hmem := by
    rcases List.mem_append.1 hmem with hmem | hmem
    · exact h.ends hmem
    · obtain ⟨x, hx, hP⟩ := h'.ends hmem
      exact ⟨x, (h.waiting_iff.1 hx).1, hP⟩

/-- Where none is left that should have ended, just those have ended that should have. -/
theorem Finishes.mem_iff (h : Finishes P w gone w')
    (hunique : ∀ {x e e'}, P x e → P x e' → e = e')
    (hleft : ∀ {n : Nat} {x : Waiter}, w'.waiting[n]? = some x → ¬P x e) :
    (n, e) ∈ gone ↔ ∃ x, w.waiting[n]? = some x ∧ P x e := by
  refine ⟨h.ends, ?_⟩
  rintro ⟨x, hx, hP⟩
  by_cases hgone : n ∈ gone.map Prod.fst
  · obtain ⟨⟨n, e'⟩, hmem, rfl⟩ := List.mem_map.1 hgone
    obtain ⟨x', hx', hP'⟩ := h.ends hmem
    rw [hx] at hx'
    cases hx'
    rwa [hunique hP hP']
  · exact absurd hP (hleft (h.waiting_iff.2 ⟨hx, hgone⟩))

end Finishing

/-! ### Until no task is in the queue -/

/-- The end of a wait while tasks run at an instant: the deadline has come, or the goal holds while
the channel of the key is closed. -/
def Decides (closing : Int → Prop) (counter : Int) (now : Nat) (x : Waiter) (e : Ended) : Prop :=
  (x.deadline ≤ now ∨ closing x.key ∧ x.goal ≤ counter) ∧ e = x.verdict counter now

/-- A look takes a task out of the queue, and it ends a wait if it wakes others. -/
theorem Orderly.look {closing : Int → Prop} {c : Clock Nat} {rest : List Nat}
    (h : Orderly closing c w) (hready : c.ready = n :: rest)
    {look : Waiters × List (Clock.Request Nat)} (hlook : Looks c.now n w look) :
    (∃ gone, Finishes (Decides closing w.counter c.now) w gone look.1) ∧
      Orderly closing (Clock.grantAll { c with ready := rest } look.2) look.1 ∧
      (Clock.grantAll { c with ready := rest } look.2).ready.length +
          look.1.waiting.size * look.1.waiting.size ≤
        rest.length + w.waiting.size * w.waiting.size := by
  cases hlook with
  | gone hnone => exact ⟨⟨[], .none rfl rfl rfl rfl⟩, h.gone hready hnone, Nat.le_refl _⟩
  | sleeps hx hlistens hlt =>
      have hdue := h.due (hready ▸ List.mem_cons_self) hx hlistens
      omega
  | subscribes hx hfresh hgoal hlt =>
      refine ⟨⟨[], .none rfl rfl rfl rfl⟩, h.subscribes hready hx hgoal hlt, ?_⟩
      have hqueue : (Clock.setAlarm { c with ready := rest } n _).ready = rest :=
        Clock.ready_setAlarm hlt
      exact Nat.add_le_add_right (Nat.le_of_eq (congrArg List.length hqueue)) _
  | due hx hquiet hdue hregistry =>
      have hrest := List.nodup_cons.1 (hready ▸ h.nodup)
      have hsorted := Clock.Sorted.calm (c := { c with ready := rest }) h.sorted n
      refine ⟨⟨_, .one hx ⟨.inl hdue, rfl⟩⟩, h.leaves _ hrest.2 hsorted rfl
        (fun m => h.mem_rest hready) (fun a => Clock.mem_alarms_calm) hx (.inl hquiet) hregistry, ?_⟩
      have hsize := Tables.size_erase hx
      refine Nat.add_le_add_left (Nat.mul_self_le_mul_self ?_) _
      exact Nat.le_of_succ_le (Nat.le_of_eq hsize)
  | @finds x hx hfresh hgoal =>
      have hclosing := h.entitled (hready ▸ List.mem_cons_self) hx hfresh hgoal
      refine ⟨⟨_, .one hx ⟨.inr ⟨hclosing, hgoal⟩, rfl⟩⟩, h.finds hready hx hfresh hgoal _ _, ?_⟩
      -- Whoever is woken still waits, so the queue grows by the waits that go on at most.
      have hqueue : (Clock.grantAll { c with ready := rest }
          ((w.reach (w.registry.subscribers x.key)).2 ++ [.calm n])).ready ⊆
            rest ++ (w.waiting.erase n).keys := by
        intro m hm
        rw [Clock.grantAll_concat] at hm
        rcases mem_ready_reach.1 hm with hm | hm
        · exact List.mem_append_left _ hm
        · obtain ⟨y, hy, -⟩ := h.listening hm
          refine List.mem_append_right _ (Std.ExtTreeMap.mem_keys.2 ?_)
          have hne : m ≠ n := fun heq => hfresh (heq ▸ hm)
          exact Std.ExtTreeMap.mem_iff_isSome_getElem?.2 (by
            rw [getElem?_erase_eq_some.2 ⟨hne, hy⟩]; rfl)
      have hnodup := Clock.nodup_ready_grantAll (c := { c with ready := rest })
        (List.nodup_cons.1 (hready ▸ h.nodup)).2
        ((w.reach (w.registry.subscribers x.key)).2 ++ [.calm n])
      have hlength := (List.subperm_of_subset hnodup hqueue).length_le
      rw [List.length_append, Std.ExtTreeMap.length_keys] at hlength
      have hsize := Tables.size_erase hx
      refine Nat.le_trans (Nat.add_le_add_right hlength _) ?_
      dsimp only
      rw [← hsize, Nat.add_mul, Nat.mul_add]
      omega

/-- A run in which no task is in the queue, and everything is in order. -/
structure Resting (r : Run Waiters Nat) : Prop where
  ready_eq : r.clock.ready = []
  orderly : Orderly (fun _ => False) r.clock r.state

section Settling

variable {r : Run Waiters Nat} {closing : Int → Prop}

theorem settleWithin_finishes (h : Orderly closing r.clock r.state) {bound : Nat}
    (hbound : r.clock.ready.length + r.state.waiting.size * r.state.waiting.size ≤ bound) :
    (∃ gone, Finishes (Decides closing r.state.counter r.now) r.state gone
        (Run.settleWithin program bound r).state) ∧
      Orderly closing (Run.settleWithin program bound r).clock
        (Run.settleWithin program bound r).state ∧
      (Run.settleWithin program bound r).clock.ready = [] := by
  induction bound generalizing r with
  | zero =>
      have hempty : r.clock.ready = [] := List.length_eq_zero_iff.1 (by omega)
      exact ⟨⟨[], .none rfl rfl rfl rfl⟩, h, hempty⟩
  | succ bound ih =>
      cases hready : r.clock.ready with
      | nil =>
          rw [Run.settleWithin_of_ready program hready]
          exact ⟨⟨[], .none rfl rfl rfl rfl⟩, h, hready⟩
      | cons n rest =>
          obtain ⟨⟨gone, hgone⟩, hnext, hsize⟩ := h.look hready (looks r.clock.now n r.state)
          have hlength : r.clock.ready.length = rest.length + 1 := by simp [hready]
          obtain ⟨⟨gone', hgone'⟩, hlast⟩ := ih
            (r := .put ⟨{ r.clock with ready := rest }, r.state⟩ (look r.clock.now n r.state)) hnext
            (Nat.le_trans hsize (by omega))
          have hnow : Run.now (.put ⟨{ r.clock with ready := rest }, r.state⟩
              (look r.clock.now n r.state)) = r.now := Clock.now_grantAll _ _
          have hcounter : (look r.clock.now n r.state).1.counter = r.state.counter :=
            hgone.counter_eq
          simp only [Run.settleWithin, hready]
          refine ⟨⟨gone ++ gone', hgone.trans ?_⟩, hlast⟩
          rw [hnow] at hgone'
          rw [← hcounter]
          exact hgone'

/-- When the waiters have settled, none is left whose deadline has come, or whose goal holds where
channels may be closed. -/
theorem Orderly.left (h : Orderly closing r.clock r.state) (hready : r.clock.ready = [])
    (hx : r.state.waiting[n]? = some x) :
    r.now < x.deadline ∧ ¬(closing x.key ∧ x.goal ≤ r.state.counter) := by
  constructor
  · rcases h.served hx with hm | ⟨-, halarm⟩
    · simp [hready] at hm
    · exact h.ahead halarm
  · rintro ⟨hkey, hgoal⟩
    rcases h.closer hx hkey hgoal with hm | ⟨m, hm, -⟩
    · simp [hready] at hm
    · simp [hready] at hm

theorem Orderly.resting (h : Orderly closing r.clock r.state) (hready : r.clock.ready = []) :
    Resting r where
  ready_eq := hready
  orderly := { h with
    entitled := fun hm => by simp [hready] at hm
    closer := fun _ hkey => hkey.elim }

/-- When the waiters have settled, just those waits have ended whose deadline has come, or whose
goal holds while the channel of their key was closed. -/
theorem Orderly.settle (h : Orderly closing r.clock r.state) :
    Resting (r.settle program) ∧
      ∃ gone, Finishes (Decides closing r.state.counter r.now) r.state gone
          (r.settle program).state ∧
        ∀ {n e}, (n, e) ∈ gone ↔
          ∃ x, r.state.waiting[n]? = some x ∧ Decides closing r.state.counter r.now x e := by
  have hbound : r.clock.ready.length + r.state.waiting.size * r.state.waiting.size ≤
      program.effort r.clock.ready.length r.state :=
    Nat.add_le_add_left (Nat.mul_self_le_mul_self (Nat.le_succ _)) _
  obtain ⟨⟨gone, hgone⟩, horderly, hready⟩ := settleWithin_finishes h hbound
  refine ⟨horderly.resting hready, gone, hgone, hgone.mem_iff ?_ ?_⟩
  · exact fun hP hP' => hP.2.trans hP'.2.symm
  · intro n x hx hP
    obtain ⟨hlt, hnot⟩ := horderly.left hready hx
    have hnow : Run.now (Run.settleWithin program
      (program.effort r.clock.ready.length r.state) r) = r.now := Run.now_settleWithin _ _ _
    rw [hnow] at hlt
    rw [hgone.counter_eq] at hnot
    exact hP.1.elim (Nat.not_le.2 hlt) hnot

end Settling

end Waiters

end WitnessReplication.Registry
