import WitnessReplication.Proofs.Replica.Responding

/-!
# What handling a message keeps

Whatever message a replica handles, it does four kinds of things one after another: it notes what
no slot under way depends on, it tells a client something, it announces a slot, or a slot
changes. What each of these keeps, together with what has been sent so far, handling a message
keeps (`Kept.handle`).

## Implementation notes

The invariants that `Serving` carries hold throughout, so that each field of `Kept` may use them.
`Event.CameIn` says which events a message can hand to which slots; that a proposal among them has
been announced is read off the effects of the message as a whole.
-/

namespace WitnessReplication.Replica

/-- A message to a replica hands an event to a slot. A proposal is of the request that the message
brings, and is announced. -/
def Event.CameIn (base : Replica) (m : ReplicaMessage) (slot : Slot) : Event → Prop
  | .propose p => m.request? = some ⟨p.id, p.command, p.weak⟩ ∧
      Effect.accept (base.acceptFor slot p.id p.command p.weak) ∈ (base.handle m).2
  | .accept a => slot = a.slot ∧ (m = .accept a ∨ ∃ b, m = .batch b ∧ a ∈ b.accepts)
  | .acceptAck a => slot = a.slot ∧ (m = .acceptAck a ∨ ∃ b, m = .batch b ∧ a ∈ b.acks)
  | .commit b => slot = b.slot ∧ m = .commit b
  | .wake => False

/-- An event that a message hands to a slot also agrees with the log. -/
def Event.Handed (log : Log) (base : Replica) (m : ReplicaMessage) (slot : Slot)
    (event : Event) : Prop :=
  event.Fits log base.isLeader slot ∧ event.CameIn base m slot

/-- A request is in the record of witnessed commands, or has a result. -/
def Recorded (r : Replica) (q : Request) : Prop :=
  r.witnessed[q.id]? = some ⟨q.command, !q.weak⟩ ∨ r.values.contains q.id = true

/-- A replica differs from another only in what no slot under way depends on: its witness, the
remembered writes, who waits, and the numbering of slots. Of the witnessed commands at most that
of the request at hand differs, and it is recorded. -/
def Noted (q? : Option Request) (r r' : Replica) : Prop :=
  (∃ witness witnessed pendingWrites syncWaiters nextSlot slots,
    r' = { r with witness, witnessed, pendingWrites, syncWaiters, nextSlot, slots }) ∧
  ∀ id : CommandId, r'.witnessed[id]? = r.witnessed[id]? ∨
    ∃ q, q? = some q ∧ q.id = id ∧ r'.Recorded q

/-- A property of a replica that was `base` before message `m`, and of what it has sent since, is
kept by all that it does with the message. -/
structure Kept (log : Log) (base : Replica) (m : ReplicaMessage)
    (P : Replica → List Effect → Prop) : Prop where
  changed : ∀ {r r' sent effects}, Serving base.config base.isLeader log base r [] → P r sent →
    Change (fun slot event => event.Handed log base m slot) r effects r' → P r' (sent ++ effects)
  told : ∀ {r sent} client message, Serving base.config base.isLeader log base r [] → P r sent →
    (∀ a, message = .recordAck a → a.replica = r.id ∧
      ∃ q, m.request? = some q ∧ q.id = a.id ∧ r.Recorded q) →
    P r (sent ++ [.tell client message])
  announced : ∀ {r sent} body, P r sent → P r (sent ++ [.accept body])
  noted : ∀ {r r' sent}, Serving base.config base.isLeader log base r [] → P r sent →
    r.Noted m.request? r' → P r' sent

/-- A planned step says something to a client that is no verdict on a strong command, announces a
slot or hands a fitting event to a slot. -/
def Step.Plain (fits : Slot → Event → Prop) : Step → Prop
  | .emit e => (∃ client message, e = .tell client message ∧ ∀ a, message ≠ .recordAck a) ∨
      ∃ body, e = .accept body
  | .route slot event => fits slot event

variable {log : Log} {base r r' r'' : Replica} {m : ReplicaMessage}
variable {P : Replica → List Effect → Prop} {sent : List Effect} {q? : Option Request}

/-! ### Noting -/

namespace Noted

theorem values_eq (h : r.Noted q? r') : r'.values = r.values := by
  obtain ⟨⟨_, _, _, _, _, _, rfl⟩, -⟩ := h
  rfl

theorem refl (r : Replica) : r.Noted q? r := ⟨⟨_, _, _, _, _, _, rfl⟩, fun _ => .inl rfl⟩

theorem trans (h : r.Noted q? r') (h' : r'.Noted q? r'') : r.Noted q? r'' := by
  have hvalues := h'.values_eq
  obtain ⟨⟨_, _, _, _, _, _, rfl⟩, hold⟩ := h
  obtain ⟨⟨_, _, _, _, _, _, rfl⟩, hnew⟩ := h'
  refine ⟨⟨_, _, _, _, _, _, rfl⟩, fun id => ?_⟩
  rcases hnew id with hsame | hrecorded
  · rcases hold id with hsame' | ⟨q, hq, hid, hwitnessed | hvalue⟩
    · exact .inl (hsame.trans hsame')
    · refine .inr ⟨q, hq, hid, .inl ?_⟩
      subst hid
      exact hsame.trans hwitnessed
    · exact .inr ⟨q, hq, hid, .inr hvalue⟩
  · exact .inr hrecorded

/-- What does not touch the witnessed commands only notes. -/
theorem of_frame {witness pendingWrites syncWaiters nextSlot slots}
    (h : r' = { r with witness, pendingWrites, syncWaiters, nextSlot, slots }) :
    r.Noted q? r' := by
  subst h
  exact ⟨⟨_, _, _, _, _, _, rfl⟩, fun _ => .inl rfl⟩

theorem recordPending (r : Replica) (id : CommandId) (c : Command) :
    r.Noted q? (r.recordPending id c) := by
  obtain ⟨_, h⟩ := r.recordPending_frame id c
  exact of_frame h

/-- A command that is witnessed is recorded, and nothing else changes in the record. -/
theorem recordWitness (r : Replica) (q : Request) :
    r.Noted (some q) (r.recordWitness q.id q.command (!q.weak)).1 ∧
      (r.recordWitness q.id q.command (!q.weak)).1.Recorded q := by
  have hrecorded : (r.recordWitness q.id q.command (!q.weak)).1.Recorded q := by
    unfold Replica.recordWitness
    dsimp only
    split
    · rename_i hvalue
      refine .inr ?_
      unfold retire
      split <;> exact hvalue
    · exact .inl (by simp)
  refine ⟨⟨?_, fun id => ?_⟩, hrecorded⟩
  · obtain ⟨_, _, h⟩ := r.recordWitness_frame q.id q.command (!q.weak)
    exact ⟨_, _, _, _, _, _, h⟩
  · by_cases hid : q.id = id
    · exact .inr ⟨q, rfl, hid, hrecorded⟩
    · refine .inl ?_
      unfold Replica.recordWitness
      dsimp only
      split
      · simp only [retire, Std.ExtTreeMap.getElem?_insert_self, Std.ExtTreeMap.getElem?_erase,
          Std.ExtTreeMap.getElem?_insert, Std.compare_eq_iff_eq, if_neg hid]
      · simp only [Std.ExtTreeMap.getElem?_insert, Std.compare_eq_iff_eq, if_neg hid]

theorem witnessWeak (r : Replica) (id : CommandId) (c : Command) :
    r.Noted (some ⟨id, c, true⟩) (r.witnessWeak id c) := by
  unfold Replica.witnessWeak
  split
  · exact refl r
  · split
    · exact of_frame rfl
    · exact (recordWitness r ⟨id, c, true⟩).1

theorem assign (r : Replica) (id : CommandId) (c : Command) (strong : Bool) :
    r.Noted q? (r.assign id c strong).1 := by
  unfold Replica.assign
  dsimp only
  split
  · exact of_frame rfl
  · exact of_frame rfl

theorem config_eq (h : r.Noted q? r') : r'.config = r.config := by
  obtain ⟨⟨_, _, _, _, _, _, rfl⟩, -⟩ := h
  rfl

/-- Noting leaves a replica following the log. -/
theorem serving {config : Config} {leads : Bool} (h : r.Noted q? r')
    (hs : Serving config leads log base r []) : Serving config leads log base r' [] := by
  obtain ⟨⟨_, _, _, _, _, _, rfl⟩, -⟩ := h
  exact ⟨hs.follows.congr rfl rfl rfl rfl, hs.id_eq, hs.le_executed, hs.config_eq, hs.leads_eq,
    by simp⟩

end Noted

/-! ### Planning -/

theorem mem_performAll {steps : List Step} {e : Effect} (h : Step.emit e ∈ steps) :
    e ∈ (r.performAll steps).2 := by
  induction steps generalizing r with
  | nil => simp at h
  | cons step steps ih =>
      rcases List.mem_cons.1 h with rfl | h
      · simp [performAll, perform]
      · exact List.mem_append_right _ (ih h)

/-- What a replica plans to say about a message, it says. -/
theorem mem_handle {e : Effect} (h : .emit e ∈ (r.respond m).steps) : e ∈ (r.handle m).2 := by
  have hdone := mem_performAll (r := (r.respond m).replica) h
  unfold handle
  dsimp only
  split
  · exact hdone
  · exact List.mem_append_left _ hdone

/-- What the leader plans for a strong command is to propose and announce it. -/
theorem plain_leadPropose (body : Propose) :
    r.Noted q? (r.leadPropose body.id body.command).replica ∧
      (r.leadPropose body.id body.command).weak = none ∧
      ∀ step ∈ (r.leadPropose body.id body.command).steps, step.Plain fun slot event =>
        ∃ p : Proposal, event = .propose p ∧ p.id = body.id ∧ p.command = body.command ∧
          p.weak = false ∧ .emit (.accept (r.acceptFor slot p.id p.command p.weak)) ∈
            (r.leadPropose body.id body.command).steps := by
  have hassigned : r.Noted q? (r.assign body.id body.command true).1 := Noted.assign ..
  unfold leadPropose
  split
  · exact ⟨.refl r, rfl, by simp⟩
  · split
    · rename_i r' e hassign
      rw [hassign] at hassigned
      exact ⟨hassigned, rfl, by simp⟩
    · rename_i r' slot dep hassign
      rw [hassign] at hassigned
      have hnoted := hassigned.trans (Noted.recordPending r' body.id body.command)
      have haccept : (r'.recordPending body.id body.command).acceptFor = r.acceptFor := by
        unfold acceptFor
        rw [hnoted.config_eq]
      refine ⟨hnoted, rfl, ?_⟩
      dsimp only
      rw [haccept]
      intro step hstep
      simp only [List.mem_cons, List.not_mem_nil, or_false] at hstep
      rcases hstep with rfl | rfl | rfl
      · exact ⟨_, rfl, rfl, rfl, rfl, by simp⟩
      · exact .inl ⟨_, _, rfl, by simp⟩
      · exact .inr ⟨_, rfl⟩

theorem plain_respondSync {fits : Slot → Event → Prop} (id : CommandId) :
    r.Noted q? (r.respondSync id).replica ∧ (r.respondSync id).weak = none ∧
      ∀ step ∈ (r.respondSync id).steps, step.Plain fits := by
  unfold respondSync
  split
  · exact ⟨.refl r, rfl, by simp⟩
  · split
    · exact ⟨.refl r, rfl, List.forall_mem_singleton.2 (.inl ⟨_, _, rfl, by simp⟩)⟩
    · exact ⟨.of_frame rfl, rfl, by simp⟩

theorem plain_ackSteps {a : AcceptAck} {step : Step} (h : step ∈ r.ackSteps a) :
    step = .route a.slot (.acceptAck a) := by
  unfold ackSteps at h
  split at h
  · exact List.mem_singleton.1 h
  · simp at h

/-- A weak command is answered at once at most; what the leader has to order is the command. -/
theorem plain_respondWeak (body : WeakPropose) (causal : Bool) :
    r.Noted (some ⟨body.id, body.command, true⟩) (r.respondWeak body causal).replica ∧
      (∀ w, (r.respondWeak body causal).weak = some w → w.id = body.id ∧ w.command = body.command) ∧
      ∃ spoken : List Effect, (r.respondWeak body causal).steps = spoken.map .emit ∧
        ∀ e ∈ spoken, ∃ client message, e = .tell client message ∧ ∀ a, message ≠ .recordAck a := by
  have hpending : r.Noted (some ⟨body.id, body.command, true⟩)
      (r.recordPending body.id body.command) := Noted.recordPending ..
  have hwitness := Noted.witnessWeak (r.recordPending body.id body.command) body.id body.command
  unfold respondWeak
  split
  · exact ⟨.refl r, by simp, [], rfl, by simp⟩
  · refine ⟨hpending.trans hwitness, fun w hw => ?_, ?_⟩
    · dsimp only at hw
      split at hw
      · obtain rfl := Option.some.inj hw
        exact ⟨rfl, rfl⟩
      · simp at hw
    · dsimp only
      split
      · refine ⟨[_], rfl, List.forall_mem_singleton.2 ⟨_, _, rfl, fun a => ?_⟩⟩
        cases causal <;> simp
      · exact ⟨[], rfl, by simp⟩

/-- A weak command has nothing left to do at a replica that does not lead. -/
theorem weak_respondWeak (hleader : r.isLeader = false) (body : WeakPropose) (causal : Bool) :
    (r.respondWeak body causal).weak = none := by
  obtain ⟨⟨⟨_, _, _, _, _, _, hframe⟩, -⟩, -⟩ := plain_respondWeak (r := r) body causal
  have hsame : (r.respondWeak body causal).replica.isLeader = false := by
    rw [hframe]
    exact hleader
  unfold respondWeak at hsame ⊢
  split at hsame
  · rename_i hrefused
    rw [if_pos hrefused]
  · rename_i haccepts
    rw [if_neg haccepts]
    dsimp only at hsame ⊢
    rw [hsame]
    rfl

/-! ### Carrying out -/

theorem Serving.forget {config : Config} {leads : Bool}
    (h : Serving config leads log base r sent) : Serving config leads log base r [] :=
  ⟨h.follows, h.id_eq, h.le_executed, h.config_eq, h.leads_eq, by simp⟩

/-- A replica that was `base` at first serves its slots, and has a property. -/
def Served (log : Log) (base : Replica) (P : Replica → List Effect → Prop) (r : Replica)
    (sent : List Effect) : Prop :=
  Serving base.config base.isLeader log base r [] ∧ P r sent

namespace Kept

theorem note (h : Kept log base m P) (hp : Served log base P r sent)
    (hnoted : r.Noted m.request? r') : Served log base P r' sent :=
  ⟨hnoted.serving hp.1, h.noted hp.1 hp.2 hnoted⟩

theorem route {slot : Slot} {event : Event} (h : Kept log base m P)
    (hp : Served log base P r sent) (hfit : event.Handed log base m slot) :
    Served log base P (r.route slot event).1 (sent ++ (r.route slot event).2) := by
  have hroute : Changes (fun slot event => event.Handed log base m slot) r (r.route slot event).2
      (r.route slot event).1 := changes_route hfit
  refine hroute.preserve (fun hp hc => ⟨?_, h.changed hp.1 hp.2 hc⟩) sent hp
  exact ((hc.mono fun _ _ hfit => hfit.1).serving hp.1).forget

theorem performAll {steps : List Step} (h : Kept log base m P) (hp : Served log base P r sent)
    (hsteps : ∀ step ∈ steps, step.Plain fun slot event => event.Handed log base m slot) :
    Served log base P (r.performAll steps).1 (sent ++ (r.performAll steps).2) := by
  induction steps generalizing r sent with
  | nil => simpa [Replica.performAll] using hp
  | cons step steps ih =>
      obtain ⟨hfirst, hrest⟩ := List.forall_mem_cons.1 hsteps
      have hperform : Served log base P (r.perform step).1 (sent ++ (r.perform step).2) := by
        cases step with
        | emit e =>
            rcases hfirst with ⟨client, message, rfl, hother⟩ | ⟨body, rfl⟩
            · exact ⟨hp.1, h.told client message hp.1 hp.2 fun a ha => absurd ha (hother a)⟩
            · exact ⟨hp.1, h.announced body hp.2⟩
        | route slot event => exact h.route hp hfirst
      simpa [Replica.performAll] using ih hperform hrest

theorem handle_planned (h : Kept log base m P) (hp : Served log base P base [])
    (hnoted : base.Noted m.request? (base.respond m).replica)
    (hweak : (base.respond m).weak = none)
    (hsteps : ∀ step ∈ (base.respond m).steps,
      step.Plain fun slot event => event.Handed log base m slot) :
    Served log base P (base.handle m).1 (base.handle m).2 := by
  unfold Replica.handle
  dsimp only
  rw [hweak]
  simpa using h.performAll (h.note hp hnoted) hsteps

/-- Putting a weak command in order proposes and announces it. -/
theorem performWeak {w : WeakCommand} (h : Kept log base m P) (hp : Served log base P r sent)
    (hfit : ∀ slot (p : Proposal), p.id = w.id → p.command = w.command → p.weak = true →
      .accept (base.acceptFor slot p.id p.command p.weak) ∈ (r.performWeak w).2 →
        (Event.propose p).Handed log base m slot) :
    Served log base P (r.performWeak w).1 (sent ++ (r.performWeak w).2) := by
  have hassigned : r.Noted m.request? (r.assign w.id w.command false).1 := Noted.assign ..
  unfold Replica.performWeak orderWeak at hfit ⊢
  split
  · rename_i r' heq
    split at heq
    · rename_i r₁ e hassign
      obtain ⟨rfl, -⟩ := Prod.mk.inj heq
      rw [hassign] at hassigned
      simpa using h.note hp hassigned
    · simp at heq
  · rename_i r' slot steps heq
    rw [heq] at hfit
    split at heq
    · simp at heq
    · rename_i r₁ slot' dep hassign
      rw [hassign] at hassigned
      simp only [Prod.mk.injEq, Option.some.injEq] at heq
      obtain ⟨rfl, rfl, rfl⟩ := heq
      have hled := h.note hp hassigned
      have haccept : r₁.acceptFor = base.acceptFor := by
        unfold acceptFor
        rw [hled.1.config_eq]
      rw [haccept] at hfit ⊢
      refine h.performAll hled ?_
      intro step hstep
      simp only [List.mem_cons, List.not_mem_nil, or_false] at hstep
      rcases hstep with rfl | rfl
      · exact hfit _ _ rfl rfl rfl (mem_performAll (by simp))
      · exact .inr ⟨_, rfl⟩

theorem handle_weak {body : WeakPropose} {causal : Bool} (h : Kept log base m P)
    (hp : Served log base P base [])
    (hfits : ∀ slot (event : Event), event.CameIn base m slot → event.Fits log base.isLeader slot)
    (hm : base.respond m = base.respondWeak body causal)
    (hq : m.request? = some ⟨body.id, body.command, true⟩) :
    Served log base P (base.handle m).1 (base.handle m).2 := by
  obtain ⟨hnoted, hweak, spoken, hsteps, hspoken⟩ := plain_respondWeak (r := base) body causal
  rw [← hq] at hnoted
  have hdone : Served log base P (base.respondWeak body causal).replica spoken := by
    have hplain : ∀ step ∈ spoken.map Step.emit,
        step.Plain fun slot event => event.Handed log base m slot := by
      intro step hstep
      obtain ⟨e, he, rfl⟩ := List.mem_map.1 hstep
      exact .inl (hspoken e he)
    simpa [performAll_emit] using h.performAll (h.note hp hnoted) hplain
  cases hw : (base.respondWeak body causal).weak with
  | none =>
      have hhandle : base.handle m = ((base.respondWeak body causal).replica, spoken) := by
        simp only [Replica.handle, hm, hw, hsteps, performAll_emit]
      rw [hhandle]
      exact hdone
  | some w =>
      have hhandle : base.handle m = (((base.respondWeak body causal).replica.performWeak w).1,
          spoken ++ ((base.respondWeak body causal).replica.performWeak w).2) := by
        simp only [Replica.handle, hm, hw, hsteps, performAll_emit]
      obtain ⟨hid, hcommand⟩ := hweak w hw
      have hfit : ∀ slot (p : Proposal), p.id = w.id → p.command = w.command → p.weak = true →
          .accept (base.acceptFor slot p.id p.command p.weak) ∈
            ((base.respondWeak body causal).replica.performWeak w).2 →
          (Event.propose p).Handed log base m slot := by
        intro slot p hpid hpcommand hpweak hmem
        have hcame : (Event.propose p).CameIn base m slot := by
          refine ⟨by rw [hq, hpid, hpcommand, hpweak, hid, hcommand], ?_⟩
          rw [hhandle]
          exact List.mem_append_right _ hmem
        exact ⟨hfits slot _ hcame, hcame⟩
      rw [hhandle]
      exact h.performWeak hdone hfit

/-- The leader takes up a strong command, and any other replica witnesses it. -/
theorem handle_propose {body : Propose} (h : Kept log base (.propose body) P)
    (hp : Served log base P base [])
    (hfits : ∀ slot (event : Event), event.CameIn base (.propose body) slot →
      event.Fits log base.isLeader slot) :
    Served log base P (base.handle (.propose body)).1 (base.handle (.propose body)).2 := by
  cases hleader : base.isLeader with
  | true =>
      have hm : base.respond (.propose body) = base.leadPropose body.id body.command := by
        simp [respond, hleader]
      obtain ⟨hnoted, hweak, hsteps⟩ := plain_leadPropose (r := base) body
      rw [← hm] at hnoted hweak hsteps
      have heffects : (base.handle (.propose body)).2 =
          ((base.respond (.propose body)).replica.performAll
            (base.respond (.propose body)).steps).2 := by
        unfold Replica.handle
        dsimp only
        rw [hweak]
      refine h.handle_planned hp hnoted hweak fun step hstep => ?_
      cases step with
      | emit e => exact hsteps _ hstep
      | route slot event =>
          obtain ⟨p, rfl, hid, hcommand, hpweak, hmem⟩ := hsteps _ hstep
          have hcame : (Event.propose p).CameIn base (.propose body) slot := by
            refine ⟨by rw [hid, hcommand, hpweak]; rfl, ?_⟩
            rw [heffects]
            exact mem_performAll hmem
          exact ⟨hfits slot _ hcame, hcame⟩
  | false =>
      let q : Request := ⟨body.id, body.command, false⟩
      have hm : base.respond (.propose body) = base.witnessPropose body.id body.command := by
        simp [respond, hleader]
      obtain ⟨hnoted, hrecorded⟩ := Noted.recordWitness base q
      unfold Replica.handle
      rw [hm, witnessPropose]
      split
      · simpa [Replica.performAll] using hp
      · have hserved := h.note hp hnoted
        refine ⟨hserved.1, h.told body.id.client _ hserved.1 hserved.2 ?_⟩
        rintro a ha
        obtain rfl := ClientMessage.recordAck.inj ha
        exact ⟨hserved.1.id_eq.symm, q, rfl, rfl, hrecorded⟩

/-- What everything that a replica does with a message keeps, handling the message keeps. -/
theorem handle (h : Kept log base m P) (hfollows : base.Follows log)
    (hfits : ∀ slot (event : Event), event.CameIn base m slot → event.Fits log base.isLeader slot)
    (hp : P base []) : Served log base P (base.handle m).1 (base.handle m).2 := by
  have hstart : Served log base P base [] := ⟨.start hfollows rfl rfl, hp⟩
  have hhand : ∀ {slot : Slot} {event : Event}, event.CameIn base m slot →
      event.Handed log base m slot := fun hcame => ⟨hfits _ _ hcame, hcame⟩
  cases m with
  | propose body => exact h.handle_propose hstart hfits
  | sync body =>
      obtain ⟨hnoted, hweak, hsteps⟩ := plain_respondSync (r := base) body.id
      exact h.handle_planned hstart hnoted hweak hsteps
  | weakPropose body => exact h.handle_weak hstart hfits rfl rfl
  | causalPropose body => exact h.handle_weak hstart hfits rfl rfl
  | accept a =>
      apply h.handle_planned hstart (.refl base) rfl
      exact List.forall_mem_singleton.2 (hhand ⟨rfl, .inl rfl⟩)
  | acceptAck a =>
      refine h.handle_planned hstart (.refl base) rfl fun step hstep => ?_
      obtain rfl := plain_ackSteps hstep
      exact hhand ⟨rfl, .inl rfl⟩
  | commit b =>
      apply h.handle_planned hstart (.refl base) rfl
      exact List.forall_mem_singleton.2 (hhand ⟨rfl, rfl⟩)
  | batch b =>
      refine h.handle_planned hstart (.refl base) rfl fun step hstep => ?_
      rcases List.mem_append.1 hstep with hstep | hstep
      · obtain ⟨a, ha, rfl⟩ := List.mem_map.1 hstep
        exact hhand ⟨rfl, .inr ⟨b, rfl, ha⟩⟩
      · obtain ⟨a, ha, hstep⟩ := List.mem_flatMap.1 hstep
        obtain rfl := plain_ackSteps hstep
        exact hhand ⟨rfl, .inr ⟨b, rfl, ha⟩⟩

end Kept

/-- What a backed message hands to a slot agrees with the log after the message. -/
theorem Event.CameIn.fits {config : Config} {log' : Log} {issued : List Request} {slot : Slot}
    {event : Event} (h : event.CameIn base m slot) (hm : m.Backed log issued base.isLeader)
    (hlog : log <+: log')
    (hserving : Serving config base.isLeader log' base (base.handle m).1 (base.handle m).2) :
    event.Fits log' base.isLeader slot := by
  cases event with
  | propose p =>
      obtain ⟨-, c, hc, hq⟩ := hserving.backed _ h.2 _ fun _ => Nat.le_refl _
      have hcommand : p.command = c := Option.some.inj hc
      rw [Event.Fits, hcommand]
      exact hq
  | accept a =>
      obtain ⟨rfl, rfl | ⟨b, rfl, -⟩⟩ := h
      · have hfits : (Event.accept a).Fits log base.isLeader a.slot := hm
        exact hfits.mono hlog
      · exact hm.elim
  | acceptAck a => trivial
  | commit b => trivial
  | wake => trivial

/-! ### In a history -/

/-- A replica that follows a log, and leads it if it is the leader, handles a backed message, which
makes of the log `log'`. -/
structure Attends (config : Config) (log : Log) (issued : List Request) (base : Replica)
    (m : ReplicaMessage) (log' : Log) : Prop where
  config_eq : base.config = config
  follows : base.Follows log
  leads : base.isLeader = true → base.Leads log
  backed : m.Backed log issued base.isLeader
  log_eq : log' = log ++ if base.isLeader then base.assigned m else []

namespace Attends

variable {config : Config} {issued : List Request} {log' : Log}

theorem prefix_log (h : base.Attends config log issued m log') : log <+: log' :=
  ⟨_, h.log_eq.symm⟩

theorem serving (h : base.Attends config log issued m log') :
    Serving config base.isLeader log' base (base.handle m).1 (base.handle m).2 := by
  obtain ⟨more, hmore, -, hserving, -⟩ := handle_sound h.follows h.config_eq h.leads h.backed
  rw [h.log_eq, hmore]
  exact hserving

/-- The log stays as it is, or the leader takes up the request that the message brings. -/
theorem log_eq_or (h : base.Attends config log issued m log') :
    log' = log ∨ base.isLeader = true ∧ ∃ q, q ∈ issued ∧ m.request? = some q ∧
      (q.weak = false → base.slots.contains q.id = false) ∧ log' = log ++ [⟨q, base⟩] := by
  obtain ⟨more, hmore, -, -, hshape⟩ := handle_sound h.follows h.config_eq h.leads h.backed
  have hlog := h.log_eq
  rw [hmore] at hlog
  rcases hshape with rfl | ⟨hleader, q, hq, hrequest, hnew, rfl⟩
  · exact .inl (hlog.trans (List.append_nil log))
  · exact .inr ⟨hleader, q, hq, hrequest, hnew, hlog⟩

/-- What everything that the replica does with the message keeps holds after the message. -/
theorem keeps (h : base.Attends config log issued m log') (hkept : Kept log' base m P)
    (hp : P base []) : P (base.handle m).1 (base.handle m).2 := by
  have hserved := hkept.handle (h.follows.mono h.prefix_log)
    (fun _ _ hcame => hcame.fits h.backed h.prefix_log h.serving) hp
  exact hserved.2

end Attends

end WitnessReplication.Replica
