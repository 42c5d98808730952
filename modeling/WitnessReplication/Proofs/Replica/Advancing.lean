import Mathlib.Data.Set.Insert
import WitnessReplication.Proofs.Replica.Certifying
import WitnessReplication.Proofs.Replica.Noting

/-!
# No wake-up is lost

A committed slot executes only after the slot before it, which it marks as awaited and which wakes
it up. Between two events, therefore, no slot is left that could execute: one that is committed and
knows its command waits for a slot under way that knows that it is awaited (`Replica.Steady`).
While a chain of slots is woken, the slot at hand is an exception.

A slot is put under way only by an event of its own or by the slot after it, so that the slots
under way stay below any bound that all events respect.
-/

namespace WitnessReplication.Replica

/-- The slots under way have not executed and are below `top`, and each of them that could execute
waits for the slot before it, which is under way and is marked as awaited. The slots that are `due`
to be tried are exceptions. -/
structure Steady (top : Slot) (due : Set Slot) (r : Replica) : Prop where
  bounds : ∀ {slot : Slot} {s}, r.live[slot]? = some s → r.executed ≤ slot ∧ slot < top
  waits : ∀ {slot : Slot} {s}, r.live[slot]? = some s → s.executable?.isSome = true →
    slot ∉ due → r.executed < slot ∧
      ∃ s', r.live[slot - 1]? = some s' ∧ s'.awaited = true

/-- The slots that are due after one more has been tried: if it has executed and was awaited, the
next one has become due. -/
def Outcome.leaves (slot : Slot) (due : Set Slot) : Outcome → Set Slot
  | .executed true => insert (slot + 1) due
  | _ => due

/-- Every committed slot that has not executed is under way. -/
def CommittedLive (r : Replica) : Prop :=
  ∀ slot ∈ r.committed, ∃ s, r.live[slot]? = some s

variable {top top' slot : Slot} {r r' base : Replica} {s : LiveSlot} {event : Event}
variable {log log' : Log} {config : Config} {issued : List Request} {m : ReplicaMessage}
variable {effects : List Effect} {due due' : Set Slot}

/-! ### Trying a slot -/

namespace Steady

theorem mono (h : r.Steady top due) (htop : top ≤ top') : r.Steady top' due where
  bounds hs := ⟨(h.bounds hs).1, Nat.lt_of_lt_of_le (h.bounds hs).2 htop⟩
  waits := h.waits

/-- More slots may be taken for exceptions. -/
theorem weaken (h : r.Steady top due) (hdue : due ⊆ due') : r.Steady top due' where
  bounds := h.bounds
  waits hs hx hslot := h.waits hs hx fun hmem => hslot (hdue hmem)

theorem congr (h : r.Steady top due) (hlive : r'.live = r.live)
    (hexec : r'.executed = r.executed) : r'.Steady top due where
  bounds hs := by
    rw [hexec]
    exact h.bounds (hlive ▸ hs)
  waits hs := by
    rw [hlive] at hs ⊢
    rw [hexec]
    exact h.waits hs

/-- A slot that cannot execute is no exception. -/
theorem of_not_executable (h : r.Steady top (insert slot due))
    (hslot : ∀ s, r.live[slot]? = some s → s.executable? = none) : r.Steady top due where
  bounds := h.bounds
  waits {other s} hs hx hother := by
    refine h.waits hs hx fun hmem => ?_
    obtain rfl := hmem.resolve_right hother
    rw [hslot _ hs] at hx
    simp at hx

/-- Writing a record that is awaited if the one before it was. -/
theorem putSlot (h : r.Steady top (insert slot due)) (hexec : r.executed ≤ slot) (htop : slot < top)
    (hawaited : ∀ s', r.live[slot]? = some s' → s'.awaited = true → s.awaited = true) :
    (r.putSlot slot s).Steady top (insert slot due) where
  bounds hs' := by
    rcases of_live_putSlot hs' with ⟨rfl, -⟩ | hs'
    · exact ⟨hexec, htop⟩
    · exact h.bounds hs'
  waits {other s'} hs' hx hother := by
    rcases of_live_putSlot hs' with ⟨rfl, -⟩ | hs'
    · exact absurd (Set.mem_insert _ _) hother
    · obtain ⟨hlt, before, hbefore, hmarked⟩ := h.waits hs' hx hother
      refine ⟨hlt, ?_⟩
      by_cases hsame : slot = other - 1
      · subst hsame
        exact ⟨s, by simp, hawaited before hbefore hmarked⟩
      · refine ⟨before, ?_, hmarked⟩
        simp [Std.ExtTreeMap.getElem?_insert, hsame, hbefore]

end Steady

theorem live_await (r : Replica) (slot other : Slot) :
    (r.await slot).1.live[other]? =
      if slot = other then some { (r.live[slot]?).getD {} with awaited := true }
      else r.live[other]? := by
  have hopened : ∀ other : Slot, other ≠ slot →
      (r.openSlot slot).1.live[other]? = r.live[other]? := by
    intro other hne
    unfold openSlot
    split
    · rfl
    · simp [Std.ExtTreeMap.getElem?_insert, Ne.symm hne]
  simp only [await, live_putSlot, Std.ExtTreeMap.getElem?_insert, Std.compare_eq_iff_eq,
    live_openSlot_self, Option.getD_some]
  split
  · rfl
  · rename_i hne
    exact hopened other (Ne.symm hne)

theorem executed_await (r : Replica) (slot : Slot) :
    (r.await slot).1.executed = r.executed := executed_openSlot slot

namespace Steady

/-- A slot that waits for the one before it is no exception any more. -/
theorem await (h : r.Steady top (insert slot due)) (hs : r.live[slot]? = some s) (hpos : 0 < slot)
    (hexec : r.executed ≤ slot - 1) : (r.await (slot - 1)).1.Steady top due := by
  have hlt : slot - 1 < slot := Nat.sub_lt hpos Nat.one_pos
  constructor
  case bounds =>
    intro other s' hs'
    rw [executed_await]
    rw [live_await] at hs'
    split at hs'
    · rename_i hsame
      exact ⟨hsame ▸ hexec, hsame ▸ Nat.lt_trans hlt (h.bounds hs).2⟩
    · exact h.bounds hs'
  case waits =>
    intro other s' hs' hx hother
    rw [executed_await]
    -- a mark on the slot before stays
    have hmark : ∀ before, r.live[other - 1]? = some before → before.awaited = true →
        ∃ s', (r.await (slot - 1)).1.live[other - 1]? = some s' ∧ s'.awaited = true := by
      intro before hbefore hmarked
      rw [live_await]
      split
      · exact ⟨_, rfl, rfl⟩
      · exact ⟨before, hbefore, hmarked⟩
    rw [live_await] at hs'
    split at hs'
    · rename_i hsame
      subst hsame
      obtain rfl := Option.some.inj hs'
      cases hold : r.live[slot - 1]? with
      | none =>
          rw [hold] at hx
          simp [LiveSlot.executable?] at hx
      | some s₀ =>
          rw [hold] at hx
          obtain ⟨hbelow, before, hbefore, hmarked⟩ := h.waits hold hx fun hmem =>
            hother (hmem.resolve_left (Nat.ne_of_lt hlt))
          exact ⟨hbelow, hmark before hbefore hmarked⟩
    · by_cases hsame : slot = other
      · subst hsame
        refine ⟨Nat.lt_of_le_of_lt hexec hlt, ?_⟩
        rw [live_await, if_pos rfl]
        exact ⟨_, rfl, rfl⟩
      · obtain ⟨hbelow, before, hbefore, hmarked⟩ := h.waits hs' hx fun hmem =>
          hother (hmem.resolve_left (Ne.symm hsame))
        exact ⟨hbelow, hmark before hbefore hmarked⟩

/-- When a slot executes, only the next one may be able to, if it was waiting. -/
theorem execute {id : CommandId} {c : Command} (h : r.Steady top (insert slot due))
    (hs : r.live[slot]? = some s) (hturn : slot ≤ r.executed) :
    ((r.execute slot s id c).1.dropSlot slot).Steady top
      (Outcome.leaves slot due (.executed s.awaited)) := by
  have hslot : r.executed = slot := Nat.le_antisymm (h.bounds hs).1 hturn
  have hexec := r.executed_execute id c slot s
  have hlive := r.getElem?_live_executed id c slot s
  constructor
  case bounds =>
    intro other s' hs'
    rw [hlive] at hs'
    split at hs'
    · simp at hs'
    · rename_i hne
      obtain ⟨hle, hlt⟩ := h.bounds hs'
      rw [hexec]
      exact ⟨Nat.lt_of_le_of_ne (hslot ▸ hle) hne, hlt⟩
  case waits =>
    intro other s' hs' hx hother
    rw [hlive] at hs'
    split at hs'
    · simp at hs'
    · rename_i hne
      have hold : other ∉ due := by
        refine fun hmem => hother ?_
        unfold Outcome.leaves
        split
        · exact Set.mem_insert_of_mem _ hmem
        · exact hmem
      obtain ⟨hbelow, before, hbefore, hmarked⟩ := h.waits hs' hx fun hmem =>
        hold (hmem.resolve_left (Ne.symm hne))
      rw [hslot] at hbelow
      by_cases hnext : slot = other - 1
      · -- the slot that has executed was awaited by this one
        subst hnext
        obtain rfl : s = before := Option.some.inj (hs.symm.trans hbefore)
        rw [hmarked, Outcome.leaves, Nat.sub_add_cancel (Nat.zero_lt_of_lt hbelow)] at hother
        exact absurd (Set.mem_insert _ _) hother
      · rw [hexec, hlive, if_neg hnext]
        exact ⟨by lia, before, hbefore, hmarked⟩

theorem advance (h : r.Steady top (insert slot due)) (hs : r.live[slot]? = some s) :
    (r.advance slot s).1.Steady top ((r.advance slot s).2.2.leaves slot due) := by
  unfold Replica.advance
  split
  · rename_i hx
    exact h.of_not_executable fun s' hs' => Option.some.inj (hs.symm.trans hs') ▸ hx
  · rename_i id c hx
    dsimp only
    split
    · rename_i hprior
      refine h.await hs hprior.1 ?_
      simpa [isExecuted] using hprior.2
    · rename_i hturn
      refine h.execute hs ?_
      simp only [isExecuted, decide_eq_true_eq] at hturn
      lia

end Steady

/-! ### Handing an event to a slot -/

namespace Steady

theorem process (h : r.Steady top (insert slot due)) (hs : r.live[slot]? = some s)
    (event : Event) :
    (r.process slot s event).1.Steady top ((r.process slot s event).2.2.leaves slot due) := by
  unfold Replica.process
  split
  · rename_i happlied
    refine h.of_not_executable fun s' hs' => ?_
    obtain rfl : s = s' := Option.some.inj (hs.symm.trans hs')
    simp [LiveSlot.executable?, happlied]
  · have happly : (r.apply slot s event).1.Steady top (insert slot due) :=
      h.congr (live_apply r slot s event) (executed_apply r slot s event)
    obtain ⟨hexec, htop⟩ := h.bounds hs
    refine (happly.putSlot ?_ htop fun s' hs' hmarked => ?_).advance (by simp)
    · rw [executed_apply]
      exact hexec
    · rw [live_apply, hs] at hs'
      rw [awaited_apply, Option.some.inj hs', hmarked]

theorem wake (h : r.Steady top (insert slot due)) : (r.wake slot).1.Steady top due := by
  fun_induction Replica.wake r slot with
  | case1 r slot hnone =>
      refine h.of_not_executable fun s hs => ?_
      rw [hnone] at hs
      simp at hs
  | case2 r slot s hs r' effects hp rest ih =>
      have hprocess := h.process hs .wake
      rw [hp] at hprocess
      exact ih hprocess
  | case3 r slot s hs r' effects hp =>
      have hprocess := h.process hs .wake
      rwa [hp] at hprocess
  | case4 r slot s hs r' effects hp =>
      have hprocess := h.process hs .wake
      rwa [hp] at hprocess

theorem claim (h : r.Steady top due) (htop : slot < top)
    (hclaim : r.claim slot event = some (r', s, effects)) : r'.Steady top (insert slot due) := by
  unfold Replica.claim at hclaim
  split at hclaim
  · simp at hclaim
  · split at hclaim
    · simp only [Option.some.injEq, Prod.mk.injEq] at hclaim
      obtain ⟨rfl, -⟩ := hclaim
      exact h.weaken (Set.subset_insert slot due)
    · rename_i hnone
      split at hclaim
      · simp at hclaim
      · rename_i hnew
        simp only [openSlot, Std.ExtTreeMap.contains_eq_isSome_getElem?, hnone, Option.isSome_none,
          Bool.false_eq_true, if_false, Option.some.injEq, Prod.mk.injEq] at hclaim
        obtain ⟨rfl, -⟩ := hclaim
        refine (h.weaken (Set.subset_insert slot due)).putSlot ?_ htop fun s' hs' => ?_
        · simpa [isExecuted] using fun hexec => hnew (.inr hexec)
        · rw [hnone] at hs'
          simp at hs'

/-- After an event no slot is left that could execute. -/
theorem route (h : r.Steady top ∅) (htop : slot < top) (event : Event) :
    (r.route slot event).1.Steady top ∅ := by
  unfold Replica.route
  split
  · exact h
  · rename_i r' s opened hclaim
    obtain ⟨-, hs, -⟩ : event.isStale r'.config.ballot = false ∧ r'.live[slot]? = some s ∧
        Changes (fun _ _ => True) r opened r' := changes_claim hclaim
    have hprocess := (h.claim htop hclaim).process hs event
    dsimp only
    split
    · rename_i hwakes
      rw [hwakes] at hprocess
      exact hprocess.wake
    · rename_i hwakes
      have hnone : (r'.process slot s event).2.2.leaves slot ∅ = ∅ := by
        unfold Outcome.leaves
        split
        · exact absurd (by assumption) hwakes
        · rfl
      rwa [hnone] at hprocess

end Steady

theorem steady_initial (id : ReplicaId) (config : Config) :
    (initial id config).Steady 0 ∅ where
  bounds hs := by simp [initial] at hs
  waits hs := by simp [initial] at hs

theorem Noted.steady {q? : Option Request} (hnoted : r.Noted q? r') (h : r.Steady top due) :
    r'.Steady top due := by
  obtain ⟨⟨_, _, _, _, _, _, rfl⟩, -⟩ := hnoted
  exact h.congr rfl rfl

/-- After a message no slot is left that could execute. -/
theorem Attends.steady (h : base.Attends config log issued m log')
    (hslots : ∀ slot (event : Event), event.Planned base m slot → slot < log'.length)
    (hsteady : base.Steady log.length ∅) : (base.handle m).1.Steady log'.length ∅ := by
  have hnoted : (base.noted m).Steady log'.length ∅ :=
    (noted_noted base m).steady (hsteady.mono h.prefix_log.length_le)
  obtain ⟨effects, hroutes, -⟩ := routes_handle hslots
  exact hroutes.preserve (P := fun r => r.Steady log'.length ∅)
    (fun hp htop => hp.route htop _) hnoted

/-! ### What trying a slot leaves -/

/-- Only a slot that is not under way is opened. -/
theorem of_opened_await {other : Slot} (h : .opened other ∈ (r.await slot).2) :
    other = slot ∧ r.live[slot]? = none := by
  simp only [await, openSlot] at h
  split at h
  · simp at h
  · rename_i hnew
    exact ⟨by simpa using h, by simpa using hnew⟩

theorem of_opened_process {other : Slot} (h : .opened other ∈ (r.process slot s event).2.1) :
    r.live[other]? = none := by
  unfold Replica.process at h
  split at h
  · simp at h
  · rcases List.mem_append.1 h with h | h
    · rcases effects_apply h with heq | ⟨_, heq⟩ | ⟨_, -, ⟨_, heq⟩ | ⟨_, heq⟩⟩ <;> cases heq
    · unfold Replica.advance at h
      split at h
      · simp at h
      · dsimp only at h
        split at h
        · obtain ⟨rfl, hnone⟩ := of_opened_await h
          rw [live_putSlot, Std.ExtTreeMap.getElem?_insert] at hnone
          split at hnone
          · simp at hnone
          · rwa [live_apply] at hnone
        · rcases effects_execute h with heq | heq | h
          · cases heq
          · cases heq
          · obtain ⟨-, heq | ⟨_, heq⟩⟩ := mem_answers h <;> cases heq

/-- Trying a slot leaves the others under way. -/
theorem live_process_of_ne {other : Slot} {s' : LiveSlot} (hlive : r.live[other]? = some s')
    (hne : other ≠ slot) : ∃ s'', (r.process slot s event).1.live[other]? = some s'' := by
  unfold Replica.process
  split
  · exact ⟨s', hlive⟩
  · have hput : ((r.apply slot s event).1.putSlot slot (r.apply slot s event).2.1).live[other]? =
        some s' := by
      simp [Std.ExtTreeMap.getElem?_insert, hne.symm, live_apply, hlive]
    dsimp only
    unfold Replica.advance
    split
    · exact ⟨s', hput⟩
    · dsimp only
      split
      · rw [live_await]
        split
        · exact ⟨_, rfl⟩
        · exact ⟨s', hput⟩
      · rw [getElem?_live_executed, if_neg hne.symm]
        exact ⟨s', hput⟩

/-- A slot that is tried stays under way, or executes. -/
theorem process_spec (hs : r.live[slot]? = some s) (event : Event) :
    ((r.process slot s event).2.2 = .pending ∧
        ∃ s', (r.process slot s event).1.live[slot]? = some s') ∨
      ∃ awaited, (r.process slot s event).2.2 = .executed awaited ∧
        (r.process slot s event).1.executed = slot + 1 := by
  unfold Replica.process
  split
  · exact .inl ⟨rfl, s, hs⟩
  · have hput : ((r.apply slot s event).1.putSlot slot (r.apply slot s event).2.1).live[slot]? =
        some (r.apply slot s event).2.1 := by simp
    dsimp only
    unfold Replica.advance
    split
    · exact .inl ⟨rfl, _, hput⟩
    · dsimp only
      split
      · refine .inl ⟨rfl, ?_⟩
        rw [live_await]
        split
        · exact ⟨_, rfl⟩
        · exact ⟨_, hput⟩
      · exact .inr ⟨_, rfl, executed_execute ..⟩

/-! ### Committed slots -/

theorem committedLive_initial (id : ReplicaId) (config : Config) :
    (initial id config).CommittedLive := by
  intro slot hslot
  simp [initial] at hslot

theorem CommittedLive.putSlot {other : Slot}
    (h : ∀ slot ∈ r.committed, slot = other ∨ ∃ s, r.live[slot]? = some s) :
    (r.putSlot other s).CommittedLive := by
  intro slot hslot
  rw [live_putSlot, Std.ExtTreeMap.getElem?_insert]
  split
  · exact ⟨s, rfl⟩
  · rename_i hne
    refine (h slot hslot).resolve_left ?_
    rintro rfl
    exact hne (Std.compare_eq_iff_eq.2 rfl)

theorem Change.committedLive {fits : Slot → Event → Prop} (h : r.CommittedLive)
    (hc : Change fits r effects r') : r'.CommittedLive := by
  cases hc with
  | opened hlive hexec => exact .putSlot fun slot hslot => .inr (h slot hslot)
  | @took slot s event hs happlied hstale hfit =>
      refine .putSlot fun other hother => ?_
      rw [live_apply]
      exact (of_mem_committed_apply hother).imp_right (h other)
  | awaited hs hexec => exact .putSlot fun slot hslot => .inr (h slot hslot)
  | @executed slot s id c hs hx hturn =>
      intro other hother
      have herase : other ∈ (r.execute slot s id c).1.committed := hother
      rw [committed_execute] at herase
      obtain ⟨hne, hold⟩ := Std.ExtTreeSet.mem_erase.1 herase
      rw [getElem?_live_executed, if_neg (by simpa using hne)]
      exact h other hold

theorem kept_committedLive : Kept log base m fun r _ => r.CommittedLive where
  changed _ h hc := hc.committedLive h
  told _ _ _ h _ := h
  announced _ h := h
  noted _ h hnoted := by
    obtain ⟨⟨_, _, _, _, _, _, rfl⟩, -⟩ := hnoted
    exact h

end WitnessReplication.Replica
