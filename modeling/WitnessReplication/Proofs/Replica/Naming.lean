import WitnessReplication.Proofs.Replica.Following

/-!
# Which slots carry which commands

Where each event that reaches a slot names a command that the slot may carry, each slot under way
carries such a command, and whatever has executed was carried by a slot that has executed
(`Replica.Named`). A change keeps this (`Change.named`), and once every slot that may carry a
command has executed, the result of the command stays as it is (`Change.values_eq`).
-/

namespace WitnessReplication.Replica

variable {names names' : CommandId → Bool → Slot → Prop} {fits : Slot → Event → Prop}
variable {r r' : Replica} {effects : List Effect} {slot : Slot} {s : LiveSlot} {event : Event}
variable {ballot : Ballot} {id : CommandId}

/-- Where `names id weak slot` says that `slot` may carry the command `id`, as a weak command or as
a strong one: all that is under way or has executed is so carried. The latest weak command of a
client that has executed has a result. -/
structure Named (names : CommandId → Bool → Slot → Prop) (r : Replica) : Prop where
  executed_le : ∀ {slot : Slot} {s}, r.live[slot]? = some s → r.executed ≤ slot
  live : ∀ {slot : Slot} {s id}, r.live[slot]? = some s → s.id = some id → names id s.weak slot
  values : ∀ {id : CommandId} {value}, r.values[id]? = some value →
    ∃ weak slot, slot < r.executed ∧ names id weak slot
  weakExecuted : ∀ {client : ClientId} {seq}, r.weakExecuted[client]? = some seq →
    ⟨client, seq⟩ ∈ r.values ∧ ∃ slot, slot < r.executed ∧ names ⟨client, seq⟩ true slot

/-- An event names a command that the slot may carry, unless it is of another epoch. -/
def Event.Names (names : CommandId → Bool → Slot → Prop) (ballot : Ballot) (slot : Slot) :
    Event → Prop
  | .propose p => names p.id p.weak slot
  | .accept a => a.ballot = ballot → names a.id a.weak slot
  | _ => True

theorem Named.mono (h : r.Named names)
    (hnames : ∀ id weak slot, names id weak slot → names' id weak slot) : r.Named names' where
  executed_le := h.executed_le
  live hs hid := hnames _ _ _ (h.live hs hid)
  values hv := by
    obtain ⟨weak, slot, hlt, hname⟩ := h.values hv
    exact ⟨weak, slot, hlt, hnames _ _ _ hname⟩
  weakExecuted hw := by
    obtain ⟨hvalue, slot, hlt, hname⟩ := h.weakExecuted hw
    exact ⟨hvalue, slot, hlt, hnames _ _ _ hname⟩

theorem Event.Names.mono (h : event.Names names ballot slot)
    (hnames : ∀ id weak slot, names id weak slot → names' id weak slot) :
    event.Names names' ballot slot := by
  cases event with
  | propose p => exact hnames _ _ _ h
  | accept a => exact fun hballot => hnames _ _ _ (h hballot)
  | acceptAck a => trivial
  | commit b => trivial
  | wake => trivial

theorem Named.current (h : r.Named names) : r.Current := fun _ _ => h.executed_le

/-- Being named depends on the slots under way, the progress and the results only. -/
theorem Named.congr (h : r.Named names) (hlive : r'.live = r.live)
    (hexec : r'.executed = r.executed) (hvalues : r'.values = r.values)
    (hweak : r'.weakExecuted = r.weakExecuted) : r'.Named names where
  executed_le := h.current.congr hlive hexec _ _
  live hs hid := h.live (hlive ▸ hs) hid
  values hv := by rw [hexec]; exact h.values (hvalues ▸ hv)
  weakExecuted hw := by rw [hexec, hvalues]; exact h.weakExecuted (hweak ▸ hw)

theorem named_initial (replica : ReplicaId) (config : Config) :
    (initial replica config).Named names where
  executed_le hs := by simp [initial] at hs
  live hs := by simp [initial] at hs
  values hv := by simp [initial] at hv
  weakExecuted hw := by simp [initial] at hw

/-- A slot that takes an event carries what it carried before or what the event names. -/
theorem names_apply (hs : ∀ id, s.id = some id → names id s.weak slot)
    (hstale : event.isStale r.config.ballot = false)
    (hfit : event.Names names r.config.ballot slot) :
    ∀ id, (r.apply slot s event).2.1.id = some id →
      names id (r.apply slot s event).2.1.weak slot := by
  obtain ⟨_, _, hrecord⟩ := r.record_apply slot s event
  rw [hrecord]
  cases event with
  | propose p =>
      intro id hid
      rw [← Option.some.inj hid]
      exact hfit
  | accept a =>
      have hballot : a.ballot = r.config.ballot := by
        simpa [Event.isStale, Event.ballot?] using hstale
      simp only [LiveSlot.told]
      split
      · exact hs
      · intro id hid
        rw [← Option.some.inj hid]
        exact hfit hballot
  | _ => exact hs

theorem Named.putSlot (h : r.Named names) (hexec : r.executed ≤ slot)
    (hs : ∀ id, s.id = some id → names id s.weak slot) : (r.putSlot slot s).Named names where
  executed_le := h.current.putSlot hexec _ _
  live hs' hid := by
    rcases of_live_putSlot hs' with ⟨rfl, rfl⟩ | hs'
    · exact hs _ hid
    · exact h.live hs' hid
  values := h.values
  weakExecuted := h.weakExecuted

theorem Named.execute {c : Command} (h : r.Named names) (hs : r.live[slot]? = some s)
    (hid : s.id = some id) (hturn : slot ≤ r.executed) :
    ((r.execute slot s id c).1.dropSlot slot).Named names := by
  have hexec : r.executed = slot := Nat.le_antisymm (h.executed_le hs) hturn
  have hname := h.live hs hid
  have hvalues : ((r.execute slot s id c).1.dropSlot slot).values =
      r.values.insert id (r.store.execute c).2 := by simp [execute_eq, dropSlot]
  constructor
  case executed_le => exact h.current.execute hs hturn _ _
  case live => exact fun hs' hid' => h.live (of_live_executed hs') hid'
  case values =>
    intro id' value hv
    rw [executed_execute]
    rw [hvalues, Std.ExtTreeMap.getElem?_insert] at hv
    split at hv
    · rename_i heq
      rw [← Std.LawfulEqOrd.eq_of_compare heq]
      exact ⟨s.weak, slot, Nat.lt_succ_self slot, hname⟩
    · obtain ⟨weak, other, hlt, hother⟩ := h.values hv
      exact ⟨weak, other, hexec ▸ Nat.lt_succ_of_lt hlt, hother⟩
  case weakExecuted =>
    intro client seq hw
    rw [executed_execute, hvalues]
    have hnew : id ∈ r.values.insert id (r.store.execute c).2 := Std.ExtTreeMap.mem_insert_self
    have hold : r.weakExecuted[client]? = some seq →
        ⟨client, seq⟩ ∈ r.values.insert id (r.store.execute c).2 ∧
          ∃ other, other < slot + 1 ∧ names ⟨client, seq⟩ true other := by
      intro hold
      obtain ⟨hvalue, other, hlt, hother⟩ := h.weakExecuted hold
      exact ⟨Std.ExtTreeMap.mem_insert.2 (.inr hvalue), other,
        hexec ▸ Nat.lt_succ_of_lt hlt, hother⟩
    have hinsert : (if s.weak then r.weakExecuted.insert id.client
        (max id.seq ((r.weakExecuted[id.client]?).getD id.seq)) else r.weakExecuted)[client]? =
          some seq := by
      simpa [execute_eq, dropSlot] using hw
    split at hinsert
    · rename_i hweak
      rw [hweak] at hname
      rw [Std.ExtTreeMap.getElem?_insert] at hinsert
      split at hinsert
      · rename_i heq
        obtain rfl := Std.LawfulEqOrd.eq_of_compare heq
        -- the later of the two stays: this command or one that has executed before
        have hlatest := Option.some.inj hinsert
        cases hbefore : r.weakExecuted[id.client]? with
        | none =>
            rw [hbefore, Option.getD_none, Nat.max_self] at hlatest
            subst hlatest
            exact ⟨hnew, slot, Nat.lt_succ_self slot, hname⟩
        | some before =>
            rw [hbefore, Option.getD_some] at hlatest
            rcases Nat.le_total before id.seq with hle | hle
            · rw [Nat.max_eq_left hle] at hlatest
              subst hlatest
              exact ⟨hnew, slot, Nat.lt_succ_self slot, hname⟩
            · rw [Nat.max_eq_right hle] at hlatest
              subst hlatest
              exact hold hbefore
      · exact hold hinsert
    · exact hold hinsert

/-- A change whose events name what their slots may carry keeps a replica named. -/
theorem Change.named (h : r.Named names) (hballot : r.config.ballot = ballot)
    (hc : Change (fun slot event => event.Names names ballot slot) r effects r') :
    r'.Named names := by
  subst hballot
  cases hc with
  | opened hlive hexec => exact h.putSlot hexec (by simp)
  | @took slot s event hs happlied hstale hfit =>
      obtain ⟨_, _, hframe⟩ := r.apply_frame slot s event
      have happly : (r.apply slot s event).1.Named names := by
        rw [hframe]
        exact h.congr rfl rfl rfl rfl
      refine happly.putSlot ?_ (names_apply (fun id hid => h.live hs hid) hstale hfit)
      rw [executed_apply]
      exact h.executed_le hs
  | @awaited slot s hs hexec =>
      have hcarried : ∀ id, s.id = some id → names id s.weak slot := fun _ hid => h.live hs hid
      exact h.putSlot hexec hcarried
  | executed hs hx hturn => exact h.execute hs (LiveSlot.executable?_eq_some hx).2.2.1 hturn

/-- Once every slot that may carry a command has executed, its result stays as it is. -/
theorem Change.values_eq (h : r.Named names) (hc : Change fits r effects r')
    (hpast : ∀ weak slot, names id weak slot → slot < r.executed) :
    r'.values[id]? = r.values[id]? := by
  obtain ⟨_, _, _, rfl⟩ | ⟨slot, s, id', c, hs, hx, hturn, rfl⟩ := hc.frame_or_executed
  · rfl
  · have hother : id' ≠ id := by
      rintro rfl
      have hname := h.live hs (LiveSlot.executable?_eq_some hx).2.2.1
      exact Nat.not_lt.2 (h.executed_le hs) (hpast _ _ hname)
    simp [execute_eq, dropSlot, Std.ExtTreeMap.getElem?_insert, hother]

namespace Changes

/-- Changes whose events name what their slots may carry keep a replica named, and it gets no less
far. -/
theorem named (h : r.Named names) (hballot : r.config.ballot = ballot)
    (hc : Changes (fun slot event => event.Names names ballot slot) r effects r') :
    r'.Named names ∧ r.executed ≤ r'.executed ∧ r'.config.ballot = ballot := by
  refine hc.preserve
    (P := fun r' _ => r'.Named names ∧ r.executed ≤ r'.executed ∧ r'.config.ballot = ballot)
    ?_ [] ⟨h, Nat.le_refl _, hballot⟩
  rintro r₁ r₂ _ _ ⟨hnamed, hexec, hballot'⟩ hlast
  refine ⟨hlast.named hnamed hballot', Nat.le_trans hexec (hlast.le_executed hnamed.current), ?_⟩
  rw [hlast.same.2, hballot']

theorem values_eq (h : r.Named names) (hballot : r.config.ballot = ballot)
    (hc : Changes (fun slot event => event.Names names ballot slot) r effects r')
    (hpast : ∀ weak slot, names id weak slot → slot < r.executed) :
    r'.values[id]? = r.values[id]? := by
  induction hc with
  | refl => rfl
  | tail hc hlast ih =>
      obtain ⟨hnamed, hexec, -⟩ := hc.named h hballot
      rw [hlast.values_eq hnamed fun weak slot hname =>
        Nat.lt_of_lt_of_le (hpast weak slot hname) hexec]
      exact ih

end Changes

end WitnessReplication.Replica
