import WitnessReplication.Proofs.Replica.Carrying
import WitnessReplication.Proofs.Replica.Commuting

/-!
# Traces of a replica

A `Replica.Trace` is a sequence of changes to a replica together with the events that its slots
have taken, in order; an event that comes too late is passed over. Whoever serves the slots of a
replica, what it does is such a trace. `Trace.resolves` says that a trace which leaves no slot that
could execute comes to what its events come to, whatever the order of its changes.

For this, a slot that could execute must be one to which further events make no difference. That is
so in every view that is `View.Sane`, for events that suit it: the leader takes proposals for new
slots and acknowledgements, the other replicas accepts and commits.
-/

namespace WitnessReplication.Replica

/-! ### Sane records -/

/-- A slot that has a command has accepted it. At the leader, no slot has begun without a
certificate, and none is committed before its certificate has completed. -/
structure LiveSlot.Sane (leads : Bool) (s : LiveSlot) : Prop where
  accepted : s.id.isSome = true → s.accepted = true
  begun : leads = true → s.certificate = none → s.phase = .start
  completed : leads = true → ∀ certificate, s.certificate = some certificate →
    s.phase = .commit → certificate.fired = true

/-- An event is one that a replica takes for a slot. What the leader proposes is for a slot that it
has assigned and not begun. -/
def Event.Suits (leads : Bool) (nextSlot slot : Slot) (s : LiveSlot) : Event → Prop
  | .propose _ => leads = true ∧ slot < nextSlot ∧ s.certificate = none
  | .accept _ => leads = false
  | .acceptAck _ => leads = true
  | .commit _ => leads = false
  | .wake => False

variable {id : ReplicaId} {config : Config} {leads : Bool} {nextSlot slot : Slot} {s : LiveSlot}
variable {event : Event}

theorem LiveSlot.sane_new (leads : Bool) : ({} : LiveSlot).Sane leads where
  accepted := by simp
  begun _ _ := rfl
  completed := by simp

/-- An event leaves a sane record sane. -/
theorem LiveSlot.Sane.ofEvent (h : s.Sane leads) (hsuits : event.Suits leads nextSlot slot s) :
    (Uptake.ofEvent id config slot s event).record.Sane leads := by
  cases event with
  | propose p =>
      obtain ⟨hleads, -, hnone⟩ := hsuits
      have hstart := h.begun hleads hnone
      simp only [Uptake.ofEvent, hstart]
      split
      · rename_i hcounted
        refine ⟨fun _ => rfl, by simp [Uptake.lead, Uptake.commit], ?_⟩
        rintro - certificate hcertificate -
        obtain rfl := Option.some.inj hcertificate
        rw [Quorum.Certificate.fired_add, hcounted, Bool.or_true]
      · exact ⟨fun _ => rfl, by simp, by simp⟩
  | accept m =>
      simp only [Uptake.ofEvent]
      split
      · exact h
      · refine ⟨fun _ => rfl, ?_, ?_⟩
        · intro hleads
          simp [show leads = false from hsuits] at hleads
        · intro hleads
          simp [show leads = false from hsuits] at hleads
  | acceptAck m =>
      have hleads : leads = true := hsuits
      simp only [Uptake.ofEvent]
      split
      · exact h
      · rename_i certificate hcertificate
        split
        · rename_i hcounted
          refine ⟨h.accepted, by simp [Uptake.lead, Uptake.commit], ?_⟩
          rintro - certificate' hcertificate' -
          obtain rfl := Option.some.inj hcertificate'
          rw [Quorum.Certificate.fired_add, hcounted, Bool.or_true]
        · refine ⟨h.accepted, by simp, ?_⟩
          rintro - certificate' hcertificate' hphase
          obtain rfl := Option.some.inj hcertificate'
          rw [Quorum.Certificate.fired_add, h.completed hleads certificate hcertificate hphase,
            Bool.true_or]
  | commit m =>
      refine ⟨h.accepted, ?_, ?_⟩
      · intro hleads
        simp [show leads = false from hsuits] at hleads
      · intro hleads
        simp [show leads = false from hsuits] at hleads
  | wake => exact hsuits.elim

/-- An acknowledgement makes no difference to a slot without a certificate. -/
theorem Uptake.ofEvent_acceptAck (hnone : s.certificate = none) (m : AcceptAck) :
    ofEvent id config slot s (.acceptAck m) = { record := s } := by
  simp only [ofEvent, hnone]

/-- An event makes no difference to a slot that could execute. -/
theorem LiveSlot.Sane.ofEvent_of_executable (h : s.Sane leads)
    (hsuits : event.Suits leads nextSlot slot s) (hx : s.executable?.isSome = true) :
    Uptake.ofEvent id config slot s event = { record := s } := by
  obtain ⟨⟨cid, c⟩, hx⟩ := Option.isSome_iff_exists.1 hx
  obtain ⟨-, hphase, hid, -⟩ := LiveSlot.executable?_eq_some hx
  cases event with
  | propose p =>
      have hstart := h.begun hsuits.1 hsuits.2.2
      simp [hphase] at hstart
  | accept m =>
      have haccepted : s.accepted = true := h.accepted (by simp [hid])
      simp [Uptake.ofEvent, haccepted]
  | acceptAck m =>
      cases hcertificate : s.certificate with
      | none => exact Uptake.ofEvent_acceptAck hcertificate m
      | some certificate =>
          have hfired := h.completed hsuits certificate hcertificate hphase
          have hrecord : { s with certificate := some certificate } = s := by rw [← hcertificate]
          simp [Uptake.ofEvent, hcertificate, Quorum.Certificate.add_of_fired hfired, hrecord]
  | commit m =>
      have hrecord : { s with phase := .commit } = s := by rw [← hphase]
      simp [Uptake.ofEvent, Uptake.commit, hphase, hrecord]
  | wake => exact hsuits.elim

/-! ### Sane views -/

/-- Every record is sane, what has accepted no command has not been counted, and the leader has
begun no slot that it has not assigned. -/
structure View.Sane (v : View) : Prop where
  orderly : v.Orderly
  slots : ∀ slot, (v.slots slot).Sane v.base.isLeader
  unassigned : v.base.isLeader = true → ∀ slot, v.base.nextSlot ≤ slot →
    (v.slots slot).certificate = none

/-- Events that a view takes. What the leader proposes comes alone. -/
structure View.Suits (v : View) (events : List (Slot × Event)) : Prop where
  each : ∀ item ∈ events,
    item.2.Suits v.base.isLeader v.base.nextSlot item.1 (v.slots item.1)
  alone : ∀ slot p, (slot, .propose p) ∈ events → events = [(slot, .propose p)]

namespace View

variable {v w : View} {events : List (Slot × Event)} {item : Slot × Event} {cid : CommandId}
variable {c : Command}

theorem Sane.absorb (h : v.Sane)
    (hsuits : event.Suits v.base.isLeader v.base.nextSlot slot (v.slots slot)) :
    (v.absorb slot event).1.Sane := by
  refine ⟨h.orderly.absorb slot event, ?_, ?_⟩
  · unfold View.absorb
    split
    · intro other
      change (Function.update v.slots slot (v.uptake slot event).record other).Sane _
      by_cases hsame : other = slot
      · subst hsame
        rw [Function.update_self]
        exact (h.slots other).ofEvent hsuits
      · rw [Function.update_of_ne hsame]
        exact h.slots other
    · exact h.slots
  · unfold View.absorb
    split
    · intro hleads other hle
      change (Function.update v.slots slot (v.uptake slot event).record other).certificate = none
      have hnone := h.unassigned hleads other hle
      by_cases hsame : other = slot
      · subst hsame
        rw [Function.update_self]
        cases event with
        | propose p => exact absurd hsuits.2.1 (Nat.not_lt.2 hle)
        | accept m =>
            rw [show v.base.isLeader = true from hleads] at hsuits
            simp [Event.Suits] at hsuits
        | acceptAck m =>
            rw [uptake, Uptake.ofEvent_acceptAck hnone]
            exact hnone
        | commit m =>
            rw [show v.base.isLeader = true from hleads] at hsuits
            simp [Event.Suits] at hsuits
        | wake => exact hsuits.elim
      · rw [Function.update_of_ne hsame]
        exact hnone
    · exact h.unassigned

theorem Sane.execute (h : v.Sane) : (v.execute cid c).1.Sane := by
  refine ⟨?_, ?_, ?_⟩
  · intro slot hle haccepted
    rw [executed_execute] at hle
    rw [slots_execute, if_neg (Nat.ne_of_gt hle)] at haccepted
    rw [ordered_execute]
    exact h.orderly slot (Nat.le_of_succ_le hle) haccepted
  · intro slot
    rw [isLeader_execute, slots_execute]
    split
    · exact LiveSlot.sane_new _
    · exact h.slots slot
  · intro hleads slot hle
    rw [isLeader_execute] at hleads
    rw [nextSlot_execute] at hle
    rw [slots_execute]
    split
    · rfl
    · exact h.unassigned hleads slot hle

/-- In what order the events of different slots come makes no difference. -/
theorem Suits.congr {events' : List (Slot × Event)} (h : v.Suits events)
    (hsame : SameBySlot events' events) : v.Suits events' := by
  have hperm := hsame.perm
  refine ⟨fun item hmem => h.each item (hperm.mem_iff.1 hmem), fun slot p hmem => ?_⟩
  have hone := h.alone slot p (hperm.mem_iff.1 hmem)
  rw [hone] at hperm
  exact List.perm_singleton.1 hperm

/-- Where more than a proposal is to come, the rest suits every later view as well. -/
theorem Suits.tail (h : v.Suits (item :: events)) (hleader : w.base.isLeader = v.base.isLeader) :
    w.Suits events := by
  have hplain : ∀ slot p, (slot, .propose p) ∉ events := by
    intro slot p hmem
    have halone := h.alone slot p (List.mem_cons_of_mem _ hmem)
    rw [List.cons.injEq] at halone
    rw [halone.2] at hmem
    simp at hmem
  refine ⟨fun item' hmem => ?_, fun slot p hmem => absurd hmem (hplain slot p)⟩
  have hsuits := h.each item' (List.mem_cons_of_mem _ hmem)
  obtain ⟨slot, event⟩ := item'
  rw [hleader]
  cases event with
  | propose p => exact absurd hmem (hplain slot p)
  | accept m => exact hsuits
  | acceptAck m => exact hsuits
  | commit m => exact hsuits
  | wake => exact hsuits

theorem Suits.execute (h : v.Suits events) : (v.execute cid c).1.Suits events := by
  refine ⟨fun item hmem => ?_, h.alone⟩
  have hsuits := h.each item hmem
  obtain ⟨slot, event⟩ := item
  rw [isLeader_execute, nextSlot_execute, slots_execute]
  cases event with
  | propose p =>
      refine ⟨hsuits.1, hsuits.2.1, ?_⟩
      split
      · rfl
      · exact hsuits.2.2
  | accept m => exact hsuits
  | acceptAck m => exact hsuits
  | commit m => exact hsuits
  | wake => exact hsuits

end View

/-! ### Traces -/

/-- A sequence of changes to a replica, the events that its slots have taken or passed over, in
order, and the effects. -/
inductive Trace : Replica → List (Slot × Event) → List Effect → Replica → Prop
  | refl (r : Replica) : Trace r [] [] r
  /-- The replica changes, and takes no event. -/
  | change {r r' r'' : Replica} {events : List (Slot × Event)} {effects effects' : List Effect}
      (hc : Change (fun _ _ => False) r effects r') (rest : Trace r' events effects' r'') :
      Trace r events (effects ++ effects') r''
  /-- A slot takes an event. -/
  | take {r r'' : Replica} {slot : Slot} {s : LiveSlot} {event : Event}
      {events : List (Slot × Event)} {effects' : List Effect}
      (hs : r.live[slot]? = some s) (happlied : s.applied = false)
      (hstale : event.isStale r.config.ballot = false)
      (rest : Trace ((r.apply slot s event).1.putSlot slot (r.apply slot s event).2.1) events
        effects' r'') :
      Trace r ((slot, event) :: events) ((r.apply slot s event).2.2 ++ effects') r''
  /-- An event is passed over, for its slot has executed. -/
  | pass {r r'' : Replica} {slot : Slot} {event : Event} {events : List (Slot × Event)}
      {effects' : List Effect} (hpassed : slot < r.executed)
      (rest : Trace r events effects' r'') : Trace r ((slot, event) :: events) effects' r''

variable {r r' r'' : Replica} {events events' : List (Slot × Event)}
variable {effects effects' : List Effect}

namespace Trace

theorem trans (h : Trace r events effects r') (h' : Trace r' events' effects' r'') :
    Trace r (events ++ events') (effects ++ effects') r'' := by
  induction h with
  | refl => exact h'
  | change hc rest ih =>
      rw [List.append_assoc]
      exact change hc (ih h')
  | take hs happlied hstale rest ih =>
      rw [List.append_assoc]
      exact take hs happlied hstale (ih h')
  | pass hpassed rest ih => exact pass hpassed (ih h')

/-- Changes without events are a trace. -/
theorem of_changes (h : Changes (fun _ _ => False) r effects r') : Trace r [] effects r' := by
  induction h with
  | refl => exact refl _
  | tail _ hlast ih => simpa using ih.trans (change hlast (refl _))

/-- Events of executed slots are passed over. -/
theorem passAll (hpassed : ∀ item ∈ events, item.1 < r.executed) : Trace r events [] r := by
  induction events with
  | nil => exact refl r
  | cons item events ih =>
      exact pass (hpassed item List.mem_cons_self)
        (ih fun item hmem => hpassed item (List.mem_cons_of_mem _ hmem))

/-- A slot that handles an event takes it. -/
theorem process (hs : r.live[slot]? = some s) (happlied : s.applied = false)
    (hstale : event.isStale r.config.ballot = false) :
    Trace r [(slot, event)] (r.process slot s event).2.1 (r.process slot s event).1 := by
  unfold Replica.process
  rw [if_neg (by simp [happlied])]
  exact take hs happlied hstale (of_changes (changes_advance (by simp)))

/-- A slot that is woken takes nothing. -/
theorem process_wake (hs : r.live[slot]? = some s) :
    Trace r [] (r.process slot s .wake).2.1 (r.process slot s .wake).1 :=
  of_changes (changes_process_wake hs)

theorem same (ht : Trace r events effects r') : r'.id = r.id ∧ r'.config = r.config := by
  induction ht with
  | refl => exact ⟨rfl, rfl⟩
  | change hc rest ih => exact ⟨ih.1.trans hc.same.1, ih.2.trans hc.same.2⟩
  | take hs happlied hstale rest ih =>
      exact ⟨ih.1.trans (id_apply ..), ih.2.trans (config_apply ..)⟩
  | pass hpassed rest ih => exact ih

theorem le_executed (ht : Trace r events effects r') (h : r.Current) :
    r.executed ≤ r'.executed := by
  induction ht with
  | refl => exact Nat.le_refl _
  | change hc rest ih => exact Nat.le_trans (hc.le_executed h) (ih (hc.current h))
  | take hs happlied hstale rest ih =>
      have htook : Change (fun _ _ => True) _ _ _ := .took hs happlied hstale trivial
      exact Nat.le_trans (htook.le_executed h) (ih (htook.current h))
  | pass hpassed rest ih => exact ih h

/-- What a trace that leaves no slot which could execute comes to is what its events come to. -/
theorem resolves (ht : Trace r events effects r') (hcurrent : r.Current) (hsane : r.view.Sane)
    (hsuits : r.view.Suits events) (hidle : r'.view.next? = none) :
    r.view.Resolves events (r.view.mail effects) r'.view ∧ r'.view.Sane := by
  induction ht with
  | refl r => exact ⟨.idle hidle, hsane⟩
  | @change r r₁ r' events effects effects' hc rest ih =>
      have hmail : r₁.view.mail = r.view.mail := by
        funext effects
        rw [View.mail_view, View.mail_view, hc.same.2]
      have hnext := ih (hc.current hcurrent)
      rw [hmail] at hnext
      cases hc with
      | opened hlive hexec =>
          rw [view_opened hlive] at hnext
          exact hnext hsane hsuits hidle
      | took hs happlied hstale hfit => exact hfit.elim
      | awaited hs hexec =>
          rw [view_awaited hs] at hnext
          exact hnext hsane hsuits hidle
      | @executed slot s id c hs hx hturn =>
          have hslot : slot = r.executed := Nat.le_antisymm hturn (hcurrent slot s hs)
          obtain ⟨hview, heffects⟩ := view_executed id c hs hslot
          have hready : r.view.next? = some (id, c) := by
            have hlive : r.view.slots r.view.base.executed = s.unmarked :=
              slots_view_of_live (hslot ▸ hs)
            rw [View.next?, hlive]
            exact hx
          rw [hview] at hnext
          obtain ⟨hresolves, hsane'⟩ := hnext hsane.execute hsuits.execute hidle
          rw [View.mail_append, heffects]
          exact ⟨hresolves.execute hready, hsane'⟩
  | @take r r' slot s event events effects' hs happlied hstale rest ih =>
      have hfirst := hsuits.each _ List.mem_cons_self
      have hslot := slots_view_of_live hs
      obtain ⟨hview, heffects⟩ := view_took hs event
      have hcurrent' : ((r.apply slot s event).1.putSlot slot (r.apply slot s event).2.1).Current :=
        have htook : Change (fun _ _ => True) r _ _ := .took hs happlied hstale trivial
        htook.current hcurrent
      have hnext := ih hcurrent'
      rw [hview] at hnext
      rw [View.mail_append, heffects]
      -- a slot that could execute takes the event, but it makes no difference
      cases hx : s.executable? with
      | none =>
          have htakes : r.view.takes slot event = true := by
            have hexec : r.view.base.executed ≤ slot := hcurrent slot s hs
            have hstale' : event.isStale r.view.base.config.ballot = false := hstale
            have hnone : s.unmarked.executable? = none := hx
            simp [View.takes, hexec, hstale', hslot, hnone]
          have hsane' := hsane.absorb hfirst
          rw [View.absorb_of_takes htakes] at hsane'
          obtain ⟨hresolves, hdone⟩ := hnext hsane' (hsuits.tail rfl) hidle
          exact ⟨hresolves.take htakes, hdone⟩
      | some entry =>
          have hready : (r.view.slots slot).executable?.isSome = true := by
            rw [hslot]
            exact Option.isSome_of_eq_some hx
          have huptake : r.view.uptake slot event = { record := r.view.slots slot } :=
            (hsane.slots slot).ofEvent_of_executable hfirst hready
          obtain ⟨hsame, hnothing⟩ := r.view.taken_self slot
          rw [huptake, hsame] at hnext
          rw [huptake, hnothing]
          have htakes : r.view.takes slot event = false := by
            simp [View.takes, Option.isNone_eq_false_iff.2 hready]
          obtain ⟨hresolves, hdone⟩ := hnext hsane (hsuits.tail rfl) hidle
          exact ⟨hresolves.pass htakes, hdone⟩
  | @pass r r' slot event events effects' hpassed rest ih =>
      have htakes : r.view.takes slot event = false := by
        have hexec : ¬r.view.base.executed ≤ slot := Nat.not_le.2 hpassed
        simp [View.takes, hexec]
      obtain ⟨hresolves, hdone⟩ := ih hcurrent hsane (hsuits.tail rfl) hidle
      exact ⟨hresolves.pass htakes, hdone⟩

end Trace

end WitnessReplication.Replica
