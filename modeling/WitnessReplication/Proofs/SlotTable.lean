import WitnessReplication.Proofs.Arrivals
import WitnessReplication.Proofs.Replica.Notifying
import WitnessReplication.Proofs.Replica.Reporting
import WitnessReplication.Proofs.Replica.Saying

/-!
# The table of slots

A replica may be sent any messages, those that no other replica would send included. Between two of
them its table of slots is in order: it holds slots that have not executed, none of them applied;
the committed slots are those of the table that have come so far; and one of them that knows its
command waits for the slot before it, which is in the table too and is marked as awaited.

Progress only goes up. A slot executes when all slots before it have, each execution is of one slot
and one command of the store, and a slot that is committed stays so (`slot_table`).
-/

namespace WitnessReplication.Replica

variable {fits : Slot → Event → Prop} {r r' : Replica} {slot : Slot} {s : LiveSlot} {event : Event}
variable {effects sent : List Effect} {steps : List Step} {m : ReplicaMessage}

/-- The table of slots is in order: the slots under way have not executed, a slot that knows its
command knows its name, and the committed slots are those under way that have come so far. As many
commands have been applied to the store as slots have executed. -/
structure Charted (r : Replica) : Prop where
  current : r.Current
  unapplied : r.Unapplied
  named : ∀ (slot : Slot) s, r.live[slot]? = some s → s.command.isSome = true → s.id.isSome = true
  committed_iff : ∀ slot : Slot,
    slot ∈ r.committed ↔ ∃ s, r.live[slot]? = some s ∧ s.phase = .commit
  applied_eq : r.store.applied = r.executed

theorem charted_initial (id : ReplicaId) (config : Config) : (initial id config).Charted where
  current slot s hs := by simp [initial] at hs
  unapplied := unapplied_initial id config
  named slot s hs := by simp [initial] at hs
  committed_iff slot := by simp [initial]
  applied_eq := rfl

/-- Being in order depends on a few fields only. -/
theorem Charted.congr (h : r.Charted) (hlive : r'.live = r.live) (hexec : r'.executed = r.executed)
    (hcommitted : r'.committed = r.committed) (hstore : r'.store = r.store) : r'.Charted where
  current := h.current.congr hlive hexec
  unapplied slot s hs := h.unapplied slot s (hlive ▸ hs)
  named slot s hs := h.named slot s (hlive ▸ hs)
  committed_iff slot := by rw [hcommitted, hlive, h.committed_iff]
  applied_eq := by rw [hstore, hexec, h.applied_eq]

/-! ### What an event does to its slot -/

/-- A slot that knows its command knows its name, whatever event it takes. -/
theorem named_apply (hs : s.command.isSome = true → s.id.isSome = true)
    (hcommand : (r.apply slot s event).2.1.command.isSome = true) :
    (r.apply slot s event).2.1.id.isSome = true := by
  obtain ⟨_, _, hrecord⟩ := r.record_apply slot s event
  rw [hrecord] at hcommand ⊢
  cases event with
  | propose p => rfl
  | accept a =>
      simp only [LiveSlot.told] at hcommand ⊢
      split
      · rename_i haccepted
        rw [if_pos haccepted] at hcommand
        exact hs hcommand
      · rfl
  | _ => exact hs hcommand

/-! ### Changes -/

/-- Writing the record of a slot that is committed if the record says so. -/
theorem committed_iff_putSlot (h : ∀ other : Slot, other ≠ slot →
      (other ∈ r.committed ↔ ∃ s, r.live[other]? = some s ∧ s.phase = .commit))
    (hslot : slot ∈ r.committed ↔ s.phase = .commit) (other : Slot) :
    other ∈ (r.putSlot slot s).committed ↔
      ∃ s', (r.putSlot slot s).live[other]? = some s' ∧ s'.phase = .commit := by
  change other ∈ r.committed ↔ _
  rw [live_putSlot, Std.ExtTreeMap.getElem?_insert]
  by_cases hsame : other = slot
  · subst hsame
    simpa using hslot
  · simpa [Ne.symm hsame] using h other hsame

namespace Charted

theorem named_changed (h : r.Charted) (hc : Change fits r effects r') :
    ∀ (slot : Slot) s, r'.live[slot]? = some s → s.command.isSome = true → s.id.isSome = true :=
  hc.forall_live (K := fun _ s => s.command.isSome = true → s.id.isSome = true)
    (fun _ hcommand => hcommand) (fun _ hs => named_apply hs) (fun hs => hs) h.named

theorem committed_changed (h : r.Charted) (hc : Change fits r effects r') (other : Slot) :
    other ∈ r'.committed ↔ ∃ s, r'.live[other]? = some s ∧ s.phase = .commit := by
  cases hc with
  | @opened slot hlive hexec =>
      refine committed_iff_putSlot (fun other _ => h.committed_iff other) ?_ other
      simp [h.committed_iff, hlive]
  | @took slot s event hs happlied hstale hfit =>
      have hold : slot ∈ r.committed ↔ s.phase = .commit := by simp [h.committed_iff, hs]
      refine committed_iff_putSlot (fun other hne => ?_) ?_ other
      · rw [live_apply, ← h.committed_iff]
        obtain ⟨hcommitted, -⟩ | ⟨hcommitted, -⟩ := r.marks_apply slot s event
        · rw [hcommitted]
        · simp [hcommitted, Ne.symm hne]
      · obtain ⟨hcommitted, hphase⟩ | ⟨hcommitted, hphase⟩ := r.marks_apply slot s event
        · rw [hcommitted, hphase, hold]
        · simp [hcommitted, hphase]
  | @awaited slot s hs hexec =>
      refine committed_iff_putSlot (fun other _ => h.committed_iff other) ?_ other
      simp [h.committed_iff, hs]
  | @executed slot s id c hs hx hturn =>
      change other ∈ (r.execute slot s id c).1.committed ↔ _
      rw [committed_execute, getElem?_live_executed, Std.ExtTreeSet.mem_erase, h.committed_iff]
      by_cases hsame : slot = other
      · simp [hsame]
      · simp [hsame]

theorem applied_changed (h : r.Charted) (hc : Change fits r effects r') :
    r'.store.applied = r'.executed := by
  obtain ⟨_, _, _, rfl⟩ | ⟨slot, s, id, c, hs, -, hturn, rfl⟩ := hc.frame_or_executed
  · exact h.applied_eq
  · have hstore : ((r.execute slot s id c).1.dropSlot slot).store = (r.store.execute c).1 := by
      simp [dropSlot, execute_eq]
    rw [hstore, executed_execute, Store.applied_execute, h.applied_eq]
    exact congrArg (· + 1) (Nat.le_antisymm (h.current slot s hs) hturn)

/-- Every change leaves the table in order. -/
theorem change (h : r.Charted) (hc : Change fits r effects r') : r'.Charted where
  current := hc.current h.current
  unapplied := hc.unapplied h.unapplied
  named := h.named_changed hc
  committed_iff := h.committed_changed hc
  applied_eq := h.applied_changed hc

/-- A slot that is committed stays so, or executes. -/
theorem isCommitted_changed (h : r.Charted) (hc : Change fits r effects r')
    (hcommitted : r.isCommitted slot = true) : r'.isCommitted slot = true := by
  have hle := hc.le_executed h.current
  simp only [isCommitted, isExecuted, Bool.or_eq_true, decide_eq_true_eq,
    Std.ExtTreeSet.contains_iff_mem] at hcommitted ⊢
  refine hcommitted.elim (fun hmem => ?_) fun hlt => .inr (Nat.lt_of_lt_of_le hlt hle)
  cases hc with
  | opened hlive hexec => exact .inl hmem
  | @took own s event hs happlied hstale hfit =>
      refine .inl ?_
      obtain ⟨hsame, -⟩ | ⟨hnew, -⟩ := r.marks_apply own s event
      · exact hsame ▸ hmem
      · exact hnew ▸ Std.ExtTreeSet.mem_insert.2 (.inr hmem)
  | awaited hs hexec => exact .inl hmem
  | @executed own s id c hs hx hturn =>
      by_cases hsame : own = slot
      · rw [executed_execute, hsame]
        exact .inr (Nat.lt_succ_self slot)
      · refine .inl ?_
        change slot ∈ (r.execute own s id c).1.committed
        rw [committed_execute]
        exact Std.ExtTreeSet.mem_erase.2 ⟨by simpa using hsame, hmem⟩

end Charted

/-! ### Handling messages -/

/-- From one state of a replica to another its table stays in order and no commit is forgotten, and
what is reported as executed are the slots from where it was to where it has got. -/
structure Progresses (base : Replica) (sent : List Effect) (r : Replica) : Prop where
  charted : r.Charted
  le_executed : base.executed ≤ r.executed
  executions : sent.filterMap Effect.executed? =
    List.range' base.executed (r.executed - base.executed)
  isCommitted : ∀ slot, base.isCommitted slot = true → r.isCommitted slot = true

namespace Progresses

theorem refl (h : r.Charted) : r.Progresses [] r where
  charted := h
  le_executed := Nat.le_refl _
  executions := by simp
  isCommitted _ hslot := hslot

theorem change {base : Replica} (h : base.Progresses sent r) (hc : Change fits r effects r') :
    base.Progresses (sent ++ effects) r' where
  charted := h.charted.change hc
  le_executed := Nat.le_trans h.le_executed (hc.le_executed h.charted.current)
  executions := hc.executions_append h.charted.current h.le_executed h.executions
  isCommitted slot hslot := h.charted.isCommitted_changed hc (h.isCommitted slot hslot)

end Progresses

theorem Noted.progresses {q? : Option Request} (hnoted : r.Noted q? r') (h : r.Charted) :
    r.Progresses [] r' := by
  obtain ⟨⟨_, _, _, _, _, _, rfl⟩, -⟩ := hnoted
  exact ⟨h.congr rfl rfl rfl rfl, Nat.le_refl _, by simp, fun _ hslot => hslot⟩

/-- Whatever event is handed to a slot, a replica only gets on. -/
theorem Charted.route (h : r.Charted) (slot : Slot) (event : Event) :
    r.Progresses (r.route slot event).2 (r.route slot event).1 := by
  have hchanges : Changes (fun _ _ => True) r (r.route slot event).2 (r.route slot event).1 :=
    changes_route trivial
  exact hchanges.preserve (P := fun r' sent => r.Progresses sent r')
    (fun hp hc => hp.change hc) [] (.refl h)

/-- What a replica plans to say about a message goes to a client or announces a slot. -/
theorem said_respond {e : Effect} (h : .emit e ∈ (r.respond m).steps) :
    (∃ client message, e = .tell client message) ∨ ∃ a, e = .accept a := by
  cases says_of_emit h with
  | announces body a => exact .inr ⟨a, rfl⟩
  | answers body reply => exact .inl ⟨_, _, rfl⟩
  | judges body hleader hnew => exact .inl ⟨_, _, rfl⟩
  | gives body value => exact .inl ⟨_, _, rfl⟩
  | replies body hvariant => exact .inl ⟨_, _, rfl⟩
  | repliesCausally body hvariant => exact .inl ⟨_, _, rfl⟩

theorem Splits.filterMap_executed? {all : List Effect} (h : Splits effects steps all)
    (hsaid : ∀ e, .emit e ∈ steps → e.executed? = none) :
    all.filterMap Effect.executed? = effects.filterMap Effect.executed? := by
  have hfilter := h.filter_eq (fun e => e.executed?.isSome) (fun e he => by simp [hsaid e he])
    fun a => rfl
  have hsome : ∀ es : List Effect, (es.filter fun e => e.executed?.isSome).filterMap
      Effect.executed? = es.filterMap Effect.executed? := by
    intro es
    rw [List.filterMap_filter]
    refine congrArg (List.filterMap · es) (funext fun e => ?_)
    cases e <;> rfl
  rw [← hsome all, hfilter, hsome]

/-- Whatever message it handles, a replica only gets on. -/
theorem Charted.handle (h : r.Charted) (m : ReplicaMessage) :
    r.Progresses (r.handle m).2 (r.handle m).1 := by
  have hnoted : r.Progresses [] (r.noted m) := (noted_noted r m).progresses h
  obtain ⟨effects, hroutes, hsplits⟩ := routes_handle (r := r) (m := m) fun _ _ _ => trivial
  have hdone : r.Progresses effects (r.handle m).1 :=
    hroutes.changes.preserve (P := fun r' sent => r.Progresses sent r')
      (fun hp hc => hp.change hc) [] hnoted
  refine ⟨hdone.charted, hdone.le_executed, ?_, hdone.isCommitted⟩
  rw [hsplits.filterMap_executed?, hdone.executions]
  intro e he
  rcases said_respond he with ⟨client, message, rfl⟩ | ⟨a, rfl⟩ <;> rfl

theorem Charted.handleAll (h : r.Charted) (ms : List ReplicaMessage) :
    (r.handleAll ms).Charted ∧ r.executed ≤ (r.handleAll ms).executed ∧
      ∀ slot, r.isCommitted slot = true → (r.handleAll ms).isCommitted slot = true := by
  induction ms generalizing r with
  | nil => exact ⟨h, Nat.le_refl _, fun _ hslot => hslot⟩
  | cons m ms ih =>
      have hfirst := h.handle m
      obtain ⟨hcharted, hle, hcommitted⟩ := ih hfirst.charted
      exact ⟨hcharted, Nat.le_trans hfirst.le_executed hle,
        fun slot hslot => hcommitted slot (hfirst.isCommitted slot hslot)⟩

/-- After any messages the table of slots is in order: a slot under way has not executed and is not
applied; one that is committed and knows its command is not the next to execute and waits for the
slot before it, which is under way; the committed slots are those under way that have come so far.
As many commands have been applied to the store as slots have executed. Handling one more message
reports as executed the slots from where the replica was to where it gets, and more messages undo
neither executions nor commits. -/
theorem slot_table (id : ReplicaId) (config : Config) (ms : List ReplicaMessage) :
    let r := (initial id config).handleAll ms
    (∀ (slot : Slot) s, r.live[slot]? = some s →
      r.executed ≤ slot ∧ s.applied = false ∧
        (s.phase = .commit → s.command.isSome = true →
          r.executed < slot ∧ ∃ before, r.live[slot - 1]? = some before ∧ before.awaited = true)) ∧
    (∀ slot : Slot, slot ∈ r.committed ↔ ∃ s, r.live[slot]? = some s ∧ s.phase = .commit) ∧
    r.store.applied = r.executed ∧
    (∀ m, (r.handle m).2.filterMap Effect.executed? =
      List.range' r.executed ((r.handle m).1.executed - r.executed)) ∧
    ∀ more, r.executed ≤ (r.handleAll more).executed ∧
      ∀ slot, r.isCommitted slot = true → (r.handleAll more).isCommitted slot = true := by
  intro r
  have hcharted : r.Charted := ((charted_initial id config).handleAll ms).1
  obtain ⟨top, hsteady⟩ : ∃ top, r.Steady top ∅ :=
    steady_handleAll ⟨0, steady_initial id config⟩ ms
  refine ⟨fun slot s hs => ⟨hcharted.current slot s hs, hcharted.unapplied slot s hs,
    fun hphase hcommand => ?_⟩, hcharted.committed_iff, hcharted.applied_eq,
    fun m => (hcharted.handle m).executions, fun more => (hcharted.handleAll more).2⟩
  refine hsteady.waits hs ?_ (by simp)
  obtain ⟨c, hc⟩ := Option.isSome_iff_exists.1 hcommand
  obtain ⟨name, hname⟩ := Option.isSome_iff_exists.1 (hcharted.named slot s hs hcommand)
  simp [LiveSlot.executable?, hcharted.unapplied slot s hs, hphase, hc, hname]

end WitnessReplication.Replica
