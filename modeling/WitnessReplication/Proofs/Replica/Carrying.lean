import WitnessReplication.Proofs.Replica.Keeping

/-!
# What a slot carries

A slot carries a fact once its record says so, and after that until it has executed. What a record
keeps when its slot takes a fitting event, the slot carries through every change
(`Change.carries`), and so through every message that the replica handles.

A replica has accepted a request in a slot if the slot carries that (`Replica.HasAccepted`). At
the leader every slot of the log also carries a certificate of its acknowledgements, because the
leader proposes a request in the very step that gives it a slot (`Leads.directs_lead`).
-/

namespace WitnessReplication.Replica

/-- The record of a slot has accepted a request. -/
def LiveSlot.HasAccepted (s : LiveSlot) (q : Request) : Prop :=
  s.accepted = true ∧ s.id = some q.id ∧ s.command = some q.command ∧ s.weak = q.weak

/-- The leader's record of a slot: it has accepted a request and counts acknowledgements. -/
def LiveSlot.Directs (s : LiveSlot) (q : Request) : Prop :=
  s.HasAccepted q ∧ s.certificate.isSome = true

/-- A slot has executed, or it is under way and its record is of a kind. -/
def Carries (r : Replica) (slot : Slot) (kind : LiveSlot → Prop) : Prop :=
  slot < r.executed ∨ ∃ s, r.live[slot]? = some s ∧ kind s

/-- A replica has accepted a request in a slot. -/
def HasAccepted (r : Replica) (slot : Slot) (q : Request) : Prop :=
  r.Carries slot fun s => s.HasAccepted q

/-- The leader has every slot of the log executed or under way, and counts acknowledgements of
the latter. -/
def Directs (log : Log) (r : Replica) : Prop :=
  ∀ slot q, log.request? slot = some q → r.Carries slot fun s => s.Directs q

/-- The record of a slot stays of a kind when the slot takes a fitting event or is awaited. -/
structure Lasting (fits : Slot → Event → Prop) (slot : Slot) (kind : LiveSlot → Prop) : Prop where
  apply : ∀ (r : Replica) {s : LiveSlot} {event : Event}, fits slot event → kind s →
    kind (r.apply slot s event).2.1
  awaited : ∀ {s : LiveSlot}, kind s → kind { s with awaited := true }

variable {log log' : Log} {config : Config} {leads : Bool} {base r r' : Replica} {slot : Slot}
variable {s : LiveSlot} {event : Event} {q : Request} {effects : List Effect}
variable {kind kind' : LiveSlot → Prop} {m : ReplicaMessage} {fits fits' : Slot → Event → Prop}

theorem Lasting.mono (h : Lasting fits slot kind)
    (hfits : ∀ event, fits' slot event → fits slot event) : Lasting fits' slot kind where
  apply r _ _ hfit hk := h.apply r (hfits _ hfit) hk
  awaited := h.awaited

theorem Carries.mono (h : r.Carries slot kind) (hkind : ∀ s, kind s → kind' s) :
    r.Carries slot kind' := by
  rcases h with hexec | ⟨s, hs, hk⟩
  · exact .inl hexec
  · exact .inr ⟨s, hs, hkind s hk⟩

theorem Carries.congr (h : r.Carries slot kind) (hexec : r'.executed = r.executed)
    (hlive : r'.live = r.live) : r'.Carries slot kind := by
  unfold Carries
  rw [hexec, hlive]
  exact h

/-- Writing a record of a kind wherever there was one leaves a slot carrying it. -/
theorem Carries.putSlot {other : Slot} {s' : LiveSlot} (h : r.Carries slot kind)
    (hput : other = slot → ∀ s, r.live[slot]? = some s → kind s → kind s') :
    (r.putSlot other s').Carries slot kind := by
  rcases h with hexec | ⟨s, hs, hk⟩
  · exact .inl hexec
  · right
    rw [live_putSlot]
    by_cases hslot : other = slot
    · exact ⟨s', by simp [hslot], hput hslot s hs hk⟩
    · exact ⟨s, by simp [Std.ExtTreeMap.getElem?_insert, hslot, hs], hk⟩

/-! ### What every change keeps -/

/-- A lasting fact stays with its slot through every change with fitting events. -/
theorem Change.carries (hs : Serving config leads log base r []) (hc : Change fits r effects r')
    (hkind : Lasting fits slot kind) (h : r.Carries slot kind) : r'.Carries slot kind := by
  cases hc with
  | opened hlive hexec =>
      refine h.putSlot ?_
      rintro rfl s hs' -
      rw [hlive] at hs'
      simp at hs'
  | @took other s event hlive happlied hstale hfit =>
      have happly : (r.apply other s event).1.Carries slot kind :=
        h.congr (executed_apply r other s event) (live_apply r other s event)
      refine happly.putSlot ?_
      rintro rfl s' hs' hk
      rw [live_apply, hlive] at hs'
      obtain rfl := Option.some.inj hs'
      exact hkind.apply r hfit hk
  | awaited hlive hexec =>
      refine h.putSlot ?_
      rintro rfl s' hs' hk
      rw [hlive] at hs'
      obtain rfl := Option.some.inj hs'
      exact hkind.awaited hk
  | @executed other s id c hlive hx hturn =>
      have hother := hs.follows.eq_executed hlive hturn
      obtain ⟨_, _, _, _, _, -, hframe⟩ := r.execute_frame id c other s
      rw [hframe]
      rcases h with hexec | ⟨s', hs', hk⟩
      · left
        exact Nat.lt_succ_of_lt (hother.symm ▸ hexec)
      · by_cases hslot : other = slot
        · left
          exact hslot ▸ Nat.lt_succ_self other
        · right
          refine ⟨s', ?_, hk⟩
          simp [dropSlot, Std.ExtTreeMap.getElem?_erase, Std.ExtTreeMap.getElem?_insert, hslot, hs']

/-- What handling a message keeps of a slot. -/
theorem kept_carries
    (hkind : Lasting (fun slot event => event.Handed log base m slot) slot kind) :
    Kept log base m fun r _ => r.Carries slot kind where
  changed hs h hc := hc.carries hs hkind h
  told _ _ _ h _ := h
  announced _ h := h
  noted _ h hnoted := by
    obtain ⟨⟨_, _, _, _, _, _, rfl⟩, -⟩ := hnoted
    exact h

/-- What lasts through all that a message hands to a slot stays with the slot. -/
theorem Attends.carries_handed {issued : List Request} (h : base.Attends config log issued m log')
    (hkind : Lasting (fun slot event => event.Handed log' base m slot) slot kind)
    (hcarries : base.Carries slot kind) : (base.handle m).1.Carries slot kind :=
  h.keeps (kept_carries hkind) hcarries

/-- A lasting fact stays with its slot whatever message the replica handles. -/
theorem Attends.carries {issued : List Request} (h : base.Attends config log issued m log')
    (hkind : Lasting (fun slot event => event.Fits log' base.isLeader slot) slot kind)
    (hcarries : base.Carries slot kind) : (base.handle m).1.Carries slot kind :=
  h.carries_handed (hkind.mono fun _ hhanded => hhanded.1) hcarries

/-! ### What lasts -/

/-- A slot that has accepted its request keeps it. -/
theorem LiveSlot.HasAccepted.apply (h : s.HasAccepted q) (hq : log.request? slot = some q)
    (hfit : event.Fits log leads slot) (r : Replica) :
    (r.apply slot s event).2.1.HasAccepted q := by
  obtain ⟨_, _, hrecord⟩ := r.record_apply slot s event
  rw [hrecord]
  cases event with
  | propose p =>
      obtain rfl : q = ⟨p.id, p.command, p.weak⟩ := Option.some.inj (hq.symm.trans hfit)
      exact ⟨rfl, rfl, rfl, rfl⟩
  | accept m =>
      simp only [LiveSlot.told, if_pos h.1]
      exact h
  | _ => exact h

theorem lasting_hasAccepted (hq : log.request? slot = some q) :
    Lasting (fun slot event => event.Fits log leads slot) slot fun s => s.HasAccepted q where
  apply r _ _ hfit h := h.apply hq hfit r
  awaited h := h

/-- A slot that counts acknowledgements goes on counting them. -/
theorem LiveSlot.Directs.apply (h : s.Directs q) (hq : log.request? slot = some q)
    (hfit : event.Fits log leads slot) (r : Replica) : (r.apply slot s event).2.1.Directs q := by
  refine ⟨h.1.apply hq hfit r, ?_⟩
  have hsome := h.2
  cases event with
  | propose p =>
      simp only [Replica.apply, onPropose]
      split
      · simp only [commitAsLeader, slot_commitSlot, Option.isSome_some]
      · rfl
  | accept m => simpa [Replica.apply, onAccept, h.1.1] using hsome
  | acceptAck m =>
      simp only [Replica.apply, onAcceptAck]
      split
      · exact hsome
      · split
        · simp only [commitAsLeader, slot_commitSlot, Option.isSome_some]
        · rfl
  | commit m => simpa only [Replica.apply, slot_commitSlot] using hsome
  | wake => exact hsome

theorem lasting_directs (hq : log.request? slot = some q) :
    Lasting (fun slot event => event.Fits log leads slot) slot fun s => s.Directs q where
  apply r _ _ hfit h := h.apply hq hfit r
  awaited h := h

/-- The leader's proposal makes a record direct its slot. -/
theorem directs_propose (r : Replica) (slot : Slot) (s : LiveSlot) (p : Proposal) :
    (r.apply slot s (.propose p)).2.1.Directs ⟨p.id, p.command, p.weak⟩ := by
  simp only [Replica.apply, onPropose]
  split
  · simp only [commitAsLeader, slot_commitSlot]
    exact ⟨⟨rfl, rfl, rfl, rfl⟩, rfl⟩
  · exact ⟨⟨rfl, rfl, rfl, rfl⟩, rfl⟩

/-! ### Taking up a request -/

/-- No slot under way has been applied. -/
def Unapplied (r : Replica) : Prop :=
  ∀ (slot : Slot) (s : LiveSlot), r.live[slot]? = some s → s.applied = false

theorem unapplied_initial (id : ReplicaId) (config : Config) : (initial id config).Unapplied := by
  intro slot s hs
  simp [initial] at hs

/-- A slot that is applied is no longer under way. -/
theorem Change.unapplied {fits : Slot → Event → Prop} (h : r.Unapplied)
    (hc : Change fits r effects r') : r'.Unapplied :=
  hc.forall_live (K := fun _ s => s.applied = false) (fun _ => rfl)
    (fun _ happlied => (applied_apply ..).trans happlied) (fun happlied => happlied) h

theorem kept_unapplied : Kept log base m fun r _ => r.Unapplied where
  changed _ h hc := hc.unapplied h
  told _ _ _ h _ := h
  announced _ h := h
  noted _ h hnoted := by
    obtain ⟨⟨_, _, _, _, _, _, rfl⟩, -⟩ := hnoted
    exact h

/-- A slot that has not executed takes the event that it is handed, and what follows is a sequence
of changes in which no event comes in. -/
theorem route_took {fits : Slot → Event → Prop} (h : r.Unapplied)
    (hstale : event.isStale r.config.ballot = false) (hwake : event ≠ .wake)
    (hexec : r.executed ≤ slot) :
    ∃ r₁ s opened rest, Changes fits r opened r₁ ∧ r₁.live[slot]? = some s ∧ s.applied = false ∧
      Changes fits ((r₁.apply slot s event).1.putSlot slot (r₁.apply slot s event).2.1) rest
        (r.route slot event).1 ∧
      (r.route slot event).2 = opened ++ (r₁.apply slot s event).2.2 ++ rest := by
  have hclaims : ∃ claimed, r.claim slot event = some claimed := by
    unfold claim
    rw [hstale, if_neg Bool.false_ne_true]
    split
    · exact ⟨_, rfl⟩
    · rw [if_neg (by simpa [hwake, isExecuted] using hexec)]
      exact ⟨_, rfl⟩
  obtain ⟨⟨r₁, s, opened⟩, hclaim⟩ := hclaims
  obtain ⟨-, hs, hopened⟩ : event.isStale r₁.config.ballot = false ∧ r₁.live[slot]? = some s ∧
      Changes fits r opened r₁ := changes_claim hclaim
  have happlied : s.applied = false := by
    have hunapplied : r₁.Unapplied :=
      hopened.preserve (P := fun r _ => r.Unapplied) (fun h hc => hc.unapplied h) [] h
    exact hunapplied slot s hs
  obtain ⟨rest, hadvance, heffects⟩ : ∃ rest, Changes fits
      ((r₁.apply slot s event).1.putSlot slot (r₁.apply slot s event).2.1) rest
      (r₁.process slot s event).1 ∧
      (r₁.process slot s event).2.1 = (r₁.apply slot s event).2.2 ++ rest := by
    unfold process
    rw [happlied, if_neg Bool.false_ne_true]
    exact ⟨_, changes_advance (by simp), rfl⟩
  unfold route
  rw [hclaim]
  dsimp only
  split
  · refine ⟨r₁, s, opened, _, hopened, hs, happlied, hadvance.trans (changes_wake _ _), ?_⟩
    rw [heffects, List.append_assoc, List.append_assoc, List.append_assoc]
  · refine ⟨r₁, s, opened, _, hopened, hs, happlied, hadvance, ?_⟩
    rw [heffects, List.append_assoc]

theorem Changes.serving (hc : Changes fits r effects r')
    (hfits : ∀ slot event, fits slot event → event.Fits log leads slot)
    (hs : Serving config leads log base r []) : Serving config leads log base r' [] :=
  hc.preserve (P := fun r _ => Serving config leads log base r [])
    (fun hp hc => ((hc.mono hfits).serving hp).forget) [] hs

theorem Changes.carries (hc : Changes fits r effects r')
    (hfits : ∀ slot event, fits slot event → event.Fits log leads slot)
    (hs : Serving config leads log base r []) (hkind : Lasting fits slot kind)
    (h : r.Carries slot kind) : r'.Carries slot kind := by
  have hkept := hc.preserve
    (P := fun r _ => Serving config leads log base r [] ∧ r.Carries slot kind)
    (fun hp hc => ⟨((hc.mono hfits).serving hp.1).forget, hc.carries hp.1 hkind hp.2⟩) [] ⟨hs, h⟩
  exact hkept.2

/-- A slot that is handed an event carries what the event makes of its record, if that lasts. What
the slot carried before may be used. -/
theorem carries_route (hfits : ∀ slot event, fits slot event → event.Fits log leads slot)
    (hs : Serving config leads log base r []) (h : r.Unapplied)
    (hstale : event.isStale r.config.ballot = false) (hwake : event ≠ .wake)
    (hfit : fits slot event) (hold : Lasting fits slot kind) (hnew : Lasting fits slot kind')
    (hnow : ∀ (r' : Replica) s, (r.Carries slot kind → kind s) →
      kind' (r'.apply slot s event).2.1) :
    (r.route slot event).1.Carries slot kind' := by
  by_cases hexec : r.executed ≤ slot
  · obtain ⟨r₁, s, opened, rest, (hopened : Changes fits r opened r₁), hlive, happlied, hrest, -⟩ :=
      route_took h hstale hwake hexec
    have hserving := hopened.serving hfits hs
    have hbefore : r.Carries slot kind → kind s := by
      intro hcarries
      rcases hopened.carries hfits hs hold hcarries with hexec | ⟨s', hs', hk⟩
      · exact absurd hexec (Nat.not_lt.2 (hserving.follows.executed_le_live hlive))
      · exact Option.some.inj (hlive.symm.trans hs') ▸ hk
    have htook : Change fits r₁ (r₁.apply slot s event).2.2
        ((r₁.apply slot s event).1.putSlot slot (r₁.apply slot s event).2.1) := by
      refine .took hlive happlied ?_ hfit
      rw [hserving.config_eq, ← hs.config_eq]
      exact hstale
    refine hrest.carries hfits ((htook.mono hfits).serving hserving).forget hnew ?_
    exact .inr ⟨(r₁.apply slot s event).2.1, by simp, hnow r₁ s hbefore⟩
  · have hroute : Changes fits r (r.route slot event).2 (r.route slot event).1 := changes_route hfit
    exact hroute.carries hfits hs hnew (.inl (Nat.lt_of_not_le hexec))

/-- A slot that is proposed at the leader directs the request. -/
theorem directs_route {p : Proposal} (hs : Serving config leads log base r [])
    (h : r.Unapplied) (hq : log.request? slot = some ⟨p.id, p.command, p.weak⟩) :
    (r.route slot (.propose p)).1.Carries slot fun s =>
      s.Directs ⟨p.id, p.command, p.weak⟩ := by
  refine carries_route (fun _ _ hfit => hfit) hs h rfl (by simp) hq (lasting_directs hq)
    (lasting_directs hq) fun r' s _ => ?_
  exact directs_propose r' slot s p

/-- The leader proposes a request that it takes up at the next slot of the log, and announces that
slot. -/
theorem Leads.handle_eq (h : r.Leads log) (hq : m.request? = some q)
    (hnew : q.weak = false → r.slots.contains q.id = false) :
    (∃ sync reply causal, (r.handle m).1 = ((r.lead q).route log.length
      (.propose ⟨q.id, q.command, q.weak, sync, reply, causal⟩)).1) ∧
    Effect.accept (r.acceptFor log.length q.id q.command q.weak) ∈ (r.handle m).2 := by
  obtain ⟨_, _, _, _, hframe⟩ := h.lead_frame q
  have haccept : (r.lead q).acceptFor = r.acceptFor := by
    rw [hframe]
    rfl
  rw [← haccept]
  cases hkind : q.weak with
  | false =>
      obtain rfl := ReplicaMessage.eq_propose hq hkind
      have hpropose := h.leadPropose_eq hkind (hnew hkind)
      rw [← haccept] at hpropose
      unfold Replica.handle
      simp only [respond, h.isLeader, if_true]
      rw [hpropose]
      exact ⟨⟨_, _, _, rfl⟩, mem_performAll (by simp)⟩
  | true =>
      obtain ⟨body, causal, rfl, hrespond⟩ := respond_weak hq hkind
      obtain ⟨_, _, -, hreplica, heffects⟩ := h.handle_weak_eq (hrespond r)
      rw [heffects]
      exact ⟨⟨_, _, _, hreplica⟩, List.mem_append_right _ (mem_performAll (by simp))⟩

/-- The leader directs the slot of a request that it takes up. -/
theorem Leads.directs_lead (h : r.Leads log) (hunapplied : r.Unapplied)
    (hq : m.request? = some q) (hnew : q.weak = false → r.slots.contains q.id = false) :
    (r.handle m).1.Carries log.length fun s => s.Directs q := by
  obtain ⟨⟨sync, reply, causal, hhandle⟩, -⟩ := h.handle_eq hq hnew
  have hlead := h.lead q
  obtain ⟨_, _, _, _, hframe⟩ := h.lead_frame q
  have hserving := Serving.start hlead.toFollows rfl hlead.isLeader
  have hled : (r.lead q).Unapplied := by
    rw [hframe]
    exact hunapplied
  rw [hhandle]
  exact directs_route (p := ⟨q.id, q.command, q.weak, sync, reply, causal⟩) hserving hled
    (Log.request?_append_self log _)

/-- The leader goes on directing every slot of the log, those that it gives out included. -/
theorem Attends.directs {issued : List Request} (h : base.Attends config log issued m log')
    (hleader : base.isLeader = true) (hunapplied : base.Unapplied) (hdirects : base.Directs log) :
    (base.handle m).1.Directs log' := by
  have hold : ∀ slot q, log.request? slot = some q →
      (base.handle m).1.Carries slot fun s => s.Directs q := by
    intro slot q hq
    apply h.carries (lasting_directs (Log.request?_mono h.prefix_log hq))
    exact hdirects slot q hq
  rcases h.log_eq_or with rfl | ⟨-, q, -, hq, hnew, rfl⟩
  · exact hold
  · intro slot q' hq'
    rcases Log.request?_append_eq_some hq' with hq' | ⟨rfl, rfl⟩
    · exact hold slot q' hq'
    · exact (h.leads hleader).directs_lead hunapplied hq hnew

end WitnessReplication.Replica
