import WitnessReplication.Proofs.Replica.Leading

/-!
# Responding to messages

A replica that does not lead keeps following the log whatever backed message it handles, and the
leader keeps leading it. Handling a message either leaves the log as it is or, at the leader,
gives the next slot to the request that the message brings. What is sent is backed by the log
after the message.
-/

namespace WitnessReplication.Replica

/-- A planned step fits: it hands a fitting event to a slot, or emits what is backed. -/
def Step.Fits (config : Config) (leads : Bool) (log : Log) (base : Replica) : Step → Prop
  | .emit e => ∀ bound, (leads = true → base.executed ≤ bound) → e.Backed config log bound leads
  | .route slot event => event.Fits log leads slot

/-- The request that a planned step announces a slot for. -/
def Step.request? : Step → Option Request
  | .emit e => e.request?
  | .route _ _ => none

/-- What the leader adds to the log when it handles a message. -/
def assigned (r : Replica) (m : ReplicaMessage) : Log :=
  ((r.handle m).2.filterMap Effect.request?).map fun q => ⟨q, r⟩

/-- Handling a message, the leader adds `more` to the log and leads the longer log, and what it
sends is backed by that. -/
structure Adds (config : Config) (log more : Log) (r : Replica) (m : ReplicaMessage) : Prop where
  assigned_eq : r.assigned m = more
  leads : (r.handle m).1.Leads (log ++ more)
  serving : Serving config true (log ++ more) r (r.handle m).1 (r.handle m).2

variable {log : Log} {issued : List Request} {config : Config} {leads : Bool}
variable {base r r' : Replica} {m : ReplicaMessage} {sent : List Effect}

/-- Weak commands come in two kinds of message, and both are answered alike. -/
theorem respond_weak {q : Request} (hq : m.request? = some q) (hweak : q.weak = true) :
    ∃ (body : WeakPropose) (causal : Bool), q = ⟨body.id, body.command, true⟩ ∧
      ∀ r : Replica, r.respond m = r.respondWeak body causal := by
  cases m with
  | propose body =>
      obtain rfl := Option.some.inj hq
      simp at hweak
  | weakPropose body => exact ⟨body, false, (Option.some.inj hq).symm, fun _ => rfl⟩
  | causalPropose body => exact ⟨body, true, (Option.some.inj hq).symm, fun _ => rfl⟩
  | _ => simp [ReplicaMessage.request?] at hq

/-! ### Carrying out steps -/

theorem serving_route {slot : Slot} {event : Event} (h : Serving config leads log base r sent)
    (hfit : event.Fits log leads slot) :
    Serving config leads log base (r.route slot event).1 (sent ++ (r.route slot event).2) := by
  have hroute : Changes (fun slot event => event.Fits log leads slot) r _ _ := changes_route hfit
  exact hroute.preserve Change.serving sent h

/-- Fitting steps keep a replica following and send only what is backed. -/
theorem serving_performAll {steps : List Step} (h : Serving config leads log base r sent)
    (hsteps : ∀ step ∈ steps, step.Fits config leads log base) :
    Serving config leads log base (r.performAll steps).1 (sent ++ (r.performAll steps).2) := by
  induction steps generalizing r sent with
  | nil => simpa [performAll] using h
  | cons step steps ih =>
      obtain ⟨hfirst, hrest⟩ := List.forall_mem_cons.1 hsteps
      have hperform : Serving config leads log base (r.perform step).1
          (sent ++ (r.perform step).2) := by
        cases step with
        | emit e =>
            refine h.extend h.follows rfl rfl (Nat.le_refl _) ?_
            intro e' he' bound hbound
            obtain rfl := List.mem_singleton.1 he'
            exact hfirst bound fun hleads => Nat.le_trans h.le_executed (hbound hleads)
        | route slot event => exact serving_route h hfirst
      simpa [performAll] using ih hperform hrest

/-- Fitting steps keep the leader leading. -/
theorem Leads.performAll {steps : List Step} (h : r.Leads log)
    (hsteps : ∀ step ∈ steps, step.Fits config true log base) :
    (r.performAll steps).1.Leads log := by
  induction steps generalizing r with
  | nil => exact h
  | cons step steps ih =>
      obtain ⟨hfirst, hrest⟩ := List.forall_mem_cons.1 hsteps
      refine ih ?_ hrest
      cases step with
      | emit e => exact h
      | route slot event =>
          have hroute : Changes (fun slot event => event.Fits log true slot) r _ _ :=
            changes_route hfirst
          exact hroute.preserve (P := fun r _ => r.Leads log) Change.leads [] h

/-- Only emitted steps announce slots for requests. -/
theorem requests_performAll (r : Replica) (steps : List Step) :
    (r.performAll steps).2.filterMap Effect.request? = steps.filterMap Step.request? := by
  induction steps generalizing r with
  | nil => rfl
  | cons step steps ih =>
      simp only [performAll, List.filterMap_append, ih, List.filterMap_cons]
      cases step with
      | emit e => cases he : e.request? <;> simp [perform, Step.request?, he]
      | route slot event =>
          have hroute : Changes (fun _ _ => True) r (r.route slot event).2 _ :=
            changes_route trivial
          have hnone := hroute.preserve (P := fun _ sent => sent.filterMap Effect.request? = [])
            ?_ [] rfl
          · simpa [perform, Step.request?] using hnone
          · intro r r' sent effects hsent hc
            rw [List.filterMap_append, hsent, List.nil_append, List.filterMap_eq_nil_iff]
            exact hc.request?_eq_none

/-! ### Replicas that do not lead -/

theorem Serving.start (h : r.Follows log) (hconfig : r.config = config)
    (hleads : r.isLeader = leads) : Serving config leads log r r [] :=
  ⟨h, rfl, Nat.le_refl _, hconfig, hleads, by simp⟩

/-- Witnessing, remembering writes and noting who waits do not touch what a replica follows. -/
theorem Serving.reframe (h : Serving config leads log base r []) {witness witnessed pendingWrites
    syncWaiters} (hframe : r' = { r with witness, witnessed, pendingWrites, syncWaiters }) :
    Serving config leads log base r' [] := by
  subst hframe
  exact ⟨h.follows.congr rfl rfl rfl rfl, h.id_eq, h.le_executed, h.config_eq, h.leads_eq,
    by simp⟩

theorem witnessWeak_frame (hleader : r.isLeader = false) (id : CommandId) (c : Command) :
    ∃ witness witnessed, r.witnessWeak id c = { r with witness, witnessed } := by
  unfold witnessWeak
  split
  · exact ⟨_, _, rfl⟩
  · rw [hleader]
    exact r.recordWitness_frame id c false

/-- The answer of another replica to a strong command is a verdict. -/
theorem serving_witnessPropose (h : Serving config false log base r []) (id : CommandId)
    (c : Command) :
    (r.witnessPropose id c).weak = none ∧
      Serving config false log base (r.witnessPropose id c).replica [] ∧
      ∀ step ∈ (r.witnessPropose id c).steps, step.Fits config false log base := by
  have hother : r.id ≠ config.leader := by
    have hne : r.config.leader ≠ r.id := by
      simpa [Replica.isLeader, Config.isLeader] using h.leads_eq
    rw [← h.config_eq]
    exact Ne.symm hne
  unfold witnessPropose
  split
  · exact ⟨rfl, h, by simp⟩
  · obtain ⟨witness, witnessed, hframe⟩ := r.recordWitness_frame id c true
    exact ⟨rfl, h.reframe hframe, List.forall_mem_singleton.2 fun _ _ => hother⟩

/-- A weak command is answered before it executes only where every replica takes it. -/
theorem serving_respondWeak (h : Serving config false log base r []) (m : WeakPropose)
    (causal : Bool) :
    (r.respondWeak m causal).weak = none ∧
      Serving config false log base (r.respondWeak m causal).replica [] ∧
      ∀ step ∈ (r.respondWeak m causal).steps, step.Fits config false log base := by
  obtain ⟨pendingWrites, hpending⟩ := r.recordPending_frame m.id m.command
  have hrecorded : (r.recordPending m.id m.command).isLeader = false := by
    rw [hpending]
    exact h.leads_eq
  obtain ⟨witness, witnessed, hframe⟩ := witnessWeak_frame hrecorded m.id m.command
  unfold respondWeak
  split
  · exact ⟨rfl, h, by simp⟩
  · dsimp only
    rw [hframe, hpending]
    refine ⟨?_, h.reframe rfl, ?_⟩
    · rw [show Replica.isLeader { r with witness, witnessed, pendingWrites } = false from h.leads_eq]
      rfl
    · intro step hstep
      split at hstep
      · rename_i hspeculative
        obtain rfl := List.mem_singleton.1 hstep
        have hvariant : config.variant ≠ .leaderOnly := by
          intro hv
          rw [h.config_eq, hv] at hspeculative
          simp [Variant.repliesSpeculatively] at hspeculative
        intro bound _
        cases causal with
        | true => exact fun hv => absurd hv hvariant
        | false => exact fun hv => absurd hv hvariant
      · simp at hstep

/-- A replica that does not lead plans only fitting steps. -/
theorem serving_respond (h : Serving config false log base r []) (hm : m.Backed log issued false) :
    (r.respond m).weak = none ∧ Serving config false log base (r.respond m).replica [] ∧
      ∀ step ∈ (r.respond m).steps, step.Fits config false log base := by
  have hleader : r.isLeader = false := h.leads_eq
  cases m with
  | propose m =>
      simp only [respond, hleader]
      exact serving_witnessPropose h m.id m.command
  | sync m => simpa [respond, respondSync, hleader] using h
  | weakPropose m => exact serving_respondWeak h m false
  | causalPropose m => exact serving_respondWeak h m true
  | accept m =>
      obtain ⟨-, c, hc, hq⟩ := hm
      refine ⟨rfl, h, List.forall_mem_singleton.2 ?_⟩
      exact ⟨rfl, c, hc, hq⟩
  | acceptAck m => exact ⟨rfl, h, by simp [respond, ackSteps, hleader]⟩
  | commit m => exact ⟨rfl, h, List.forall_mem_singleton.2 trivial⟩
  | batch m => exact hm.elim

/-- A replica that does not lead keeps following the log and sends only what is backed. -/
theorem serving_handle (h : r.Follows log) (hconfig : r.config = config)
    (hleader : r.isLeader = false) (hm : m.Backed log issued false) :
    Serving config false log r (r.handle m).1 (r.handle m).2 := by
  obtain ⟨hweak, hserving, hsteps⟩ := serving_respond (.start h hconfig hleader) hm
  have hdone := serving_performAll hserving hsteps
  unfold handle
  simpa [hweak] using hdone

/-! ### The leader -/

/-- What the leader answers to a request that it takes up is what it answered before. -/
theorem Leads.speculate_assign (h : r.Leads log) {q : Request} (hstrong : q.weak = false) :
    (r.assign q.id q.command (!q.weak)).1.speculate q.id q.command true =
      r.speculate q.id q.command true := by
  obtain ⟨w, -, hweak, hassign⟩ := h.assign_eq q
  rw [hassign]
  unfold speculate ownWrite? weakWrite?
  simp only [hweak hstrong]

theorem Leads.lead_frame (h : r.Leads log) (q : Request) :
    ∃ witness nextSlot slots pendingWrites,
      r.lead q = { r with witness, nextSlot, slots, pendingWrites } := by
  obtain ⟨w, -, -, hassign⟩ := h.assign_eq q
  obtain ⟨pendingWrites, hframe⟩ := recordPending_frame
    (r.assign q.id q.command (!q.weak)).1 q.id q.command
  refine ⟨w, log.length + 1, r.slots.insert q.id log.length, pendingWrites, ?_⟩
  rw [Replica.lead, hframe, hassign]

/-- What the leader does with a strong request that it has not seen. -/
theorem Leads.leadPropose_eq (h : r.Leads log) {q : Request} (hstrong : q.weak = false)
    (hnew : r.slots.contains q.id = false) :
    r.leadPropose q.id q.command =
      ⟨r.lead q,
        [.route log.length (.propose ⟨q.id, q.command, false,
            r.verdict q.command.key = .refused, false, false⟩),
          .emit (.tell q.id.client (.reply ⟨r.id, q.id, r.speculate q.id q.command true,
            r.verdict q.command.key⟩)),
          .emit (.accept (r.acceptFor log.length q.id q.command false))],
        none⟩ := by
  obtain ⟨w, -, -, hassign⟩ := h.assign_eq q
  have hspeculate := h.speculate_assign hstrong
  have hlead : (r.assign q.id q.command (!q.weak)).1.recordPending q.id q.command = r.lead q := rfl
  obtain ⟨_, _, _, _, hframe⟩ := h.lead_frame q
  rw [hassign] at hspeculate hlead
  rw [hstrong, Bool.not_false] at hassign
  unfold leadPropose
  simp only [hnew, hassign, hspeculate, hlead, Bool.false_eq_true, if_false]
  rw [verdict, hframe]
  rfl

theorem witnessWeak_of_isLeader (hleader : r.isLeader = true) (id : CommandId) (c : Command) :
    r.witnessWeak id c = { r with witness := r.witness.stage id c } := by
  unfold witnessWeak
  rw [hleader]
  cases r.config.variant <;> rfl

/-- Remembering and staging a weak write before it gets its slot is the same as taking it up. -/
theorem Leads.assign_witnessWeak (h : r.Leads log) {q : Request} (hweak : q.weak = true) :
    ((r.recordPending q.id q.command).witnessWeak q.id q.command).assign q.id q.command false =
      (r.lead q, .ok (log.length, r.dependency? q.command.key)) := by
  obtain ⟨w, hassign, -⟩ := h.tracks.assign ⟨q, r⟩ h.executed_le
  rw [hweak, Bool.not_true] at hassign
  have hrecord := r.recordPending_eq q.id q.command
  generalize (r.recordPending q.id q.command).pendingWrites = pendingWrites at hrecord
  have hleader : Replica.isLeader { r with pendingWrites } = true := h.isLeader
  have hstage := Witness.assign_stage h.tracks.staged_eq q.id q.command log.length
  rw [hassign] at hstage
  rw [hrecord r rfl, witnessWeak_of_isLeader hleader, Replica.lead, hweak, Bool.not_true]
  simp only [Replica.assign, h.nextSlot_eq, hassign, hstage]
  rw [hrecord]
  · rfl
  · rfl

theorem performAll_emit (r : Replica) (spoken : List Effect) :
    r.performAll (spoken.map .emit) = (r, spoken) := by
  induction spoken with
  | nil => rfl
  | cons e spoken ih => simp [performAll, perform, ih]

/-- The leader answers a weak request at once if the variant says so, and then orders it. -/
theorem respondWeak_of_isLeader (hleader : r.isLeader = true) (m : WeakPropose) (causal : Bool) :
    r.respondWeak m causal =
      ⟨(r.recordPending m.id m.command).witnessWeak m.id m.command,
        (if r.config.variant.repliesSpeculatively then
          [r.weakReply m.id (r.speculate m.id m.command false) causal] else []).map .emit,
        some ⟨m.id, m.command, m.causalDep, causal⟩⟩ := by
  obtain ⟨pendingWrites, hpending⟩ := r.recordPending_frame m.id m.command
  have hrecorded : Replica.isLeader { r with pendingWrites } = true := hleader
  have haccepts : r.config.variant.accepts r.isLeader = true := by
    rw [hleader]
    cases r.config.variant <;> rfl
  have hstaged : Replica.isLeader
      { r with pendingWrites, witness := r.witness.stage m.id m.command } = true := hleader
  unfold respondWeak
  rw [haccepts, hpending, witnessWeak_of_isLeader hrecorded]
  simp only [hstaged, Bool.not_true, Bool.false_eq_true, if_false, if_true]
  split <;> rfl

/-- A weak request is answered at once at most, and then gets its slot. -/
theorem Leads.handle_weak_eq (h : r.Leads log) {body : WeakPropose} {causal : Bool}
    (hm : r.respond m = r.respondWeak body causal) :
    ∃ spoken reply,
      (∀ e ∈ spoken, e.request? = none ∧ ∀ log bound, e.Backed r.config log bound true) ∧
      let led := r.lead ⟨body.id, body.command, true⟩
      let done := led.performAll
        [.route log.length (.propose ⟨body.id, body.command, true, false, reply, causal⟩),
          .emit (.accept (led.acceptFor log.length body.id body.command true))]
      (r.handle m).1 = done.1 ∧ (r.handle m).2 = spoken ++ done.2 := by
  have hassign := h.assign_witnessWeak (q := ⟨body.id, body.command, true⟩) rfl
  unfold handle
  rw [hm, respondWeak_of_isLeader h.isLeader]
  dsimp only
  rw [performAll_emit]
  unfold performWeak orderWeak
  dsimp only at hassign ⊢
  rw [hassign]
  refine ⟨_, _, ?_, rfl, rfl⟩
  intro e he
  split at he
  · rename_i hspeculative
    obtain rfl := List.mem_singleton.1 he
    have hvariant : r.config.variant ≠ .leaderOnly := by
      intro hv
      simp [hv, Variant.repliesSpeculatively] at hspeculative
    refine ⟨rfl, fun log bound => ?_⟩
    cases causal with
    | true => exact fun hv => absurd hv hvariant
    | false => exact fun hv => absurd hv hvariant
  · simp at he

/-- A request that the leader takes up gets the next slot of the log. -/
theorem Leads.handle_lead (h : r.Leads log) (hconfig : r.config = config) {q : Request}
    {steps : List Step} {spoken : List Effect}
    (hsteps : ∀ step ∈ steps, step.Fits config true (log ++ [⟨q, r⟩]) r)
    (hrequests : steps.filterMap Step.request? = [q])
    (hspoken : ∀ e ∈ spoken, e.request? = none ∧ ∀ log bound, e.Backed config log bound true)
    (hreplica : (r.handle m).1 = ((r.lead q).performAll steps).1)
    (heffects : (r.handle m).2 = spoken ++ ((r.lead q).performAll steps).2) :
    Adds config log [⟨q, r⟩] r m := by
  obtain ⟨_, _, _, _, hframe⟩ := h.lead_frame q
  have hlead := h.lead q
  have hserving : Serving config true (log ++ [⟨q, r⟩]) r (r.lead q) spoken := by
    refine ⟨hlead.toFollows, ?_, ?_, ?_, hlead.isLeader,
      fun e he bound _ => (hspoken e he).2 _ bound⟩
    · rw [hframe]
    · exact Nat.le_of_eq (by rw [hframe])
    · rw [hframe]
      exact hconfig
  have hsilent : spoken.filterMap Effect.request? = [] :=
    List.filterMap_eq_nil_iff.2 fun e he => (hspoken e he).1
  constructor
  · rw [assigned, heffects, List.filterMap_append, hsilent, requests_performAll, hrequests]
    rfl
  · rw [hreplica]
    exact hlead.performAll hsteps
  · rw [hreplica, heffects]
    exact serving_performAll hserving hsteps

/-- Steps that announce no slot leave the log as it is. -/
theorem Leads.handle_keep (hweak : (r.respond m).weak = none)
    (hr : (r.respond m).replica.Leads log)
    (hserving : Serving config true log r (r.respond m).replica [])
    (hsteps : ∀ step ∈ (r.respond m).steps, step.Fits config true log r)
    (hrequests : (r.respond m).steps.filterMap Step.request? = []) : Adds config log [] r m := by
  have hhandle : r.handle m = (r.respond m).replica.performAll (r.respond m).steps := by
    unfold handle
    dsimp only
    rw [hweak]
  constructor
  · rw [assigned, hhandle, requests_performAll, hrequests]
    rfl
  · rw [hhandle, List.append_nil]
    exact hr.performAll hsteps
  · rw [hhandle, List.append_nil]
    exact serving_performAll hserving hsteps

/-- The proposal and the accept of a request fit the log that has it in the next slot. -/
theorem fits_propose (log : Log) (q : Request) (sync reply causal : Bool) :
    (Event.propose ⟨q.id, q.command, q.weak, sync, reply, causal⟩).Fits (log ++ [⟨q, r⟩]) true
      log.length :=
  Log.request?_append_self log _

theorem fits_acceptFor (log : Log) (q : Request) :
    (r'.acceptFor log.length q.id q.command q.weak).Fits (log ++ [⟨q, r⟩]) :=
  ⟨q.command, rfl, Log.request?_append_self log _⟩

/-- The leader takes up a strong request that has no slot. -/
theorem Leads.handle_propose (h : r.Leads log) (hconfig : r.config = config) (body : Propose)
    (hnew : r.slots.contains body.id = false) :
    Adds config log [⟨⟨body.id, body.command, false⟩, r⟩] r (.propose body) := by
  let q : Request := ⟨body.id, body.command, false⟩
  have hpropose := h.leadPropose_eq (q := q) rfl hnew
  have hhandle : r.handle (.propose body) =
      (r.lead q).performAll (r.leadPropose q.id q.command).steps := by
    unfold handle
    simp only [respond, h.isLeader, if_true]
    rw [hpropose]
  rw [hpropose] at hhandle
  have hspoken : ∀ e ∈ ([] : List Effect),
      e.request? = none ∧ ∀ log bound, e.Backed config log bound true := by simp
  refine h.handle_lead (q := q) hconfig ?_ ?_ hspoken (congrArg Prod.fst hhandle)
    (congrArg Prod.snd hhandle)
  case refine_2 => rfl
  intro step hstep
  simp only [List.mem_cons, List.not_mem_nil, or_false] at hstep
  rcases hstep with rfl | rfl | rfl
  · exact fits_propose log q _ false false
  · intro bound _
    refine ⟨hconfig ▸ config_leader_of_isLeader h.isLeader, log.length, ⟨q, r⟩, ?_, rfl, rfl, rfl,
      rfl⟩
    simp
  · exact fun _ _ => ⟨rfl, fits_acceptFor log q⟩

/-- The leader takes up every weak request. -/
theorem Leads.handle_weak (h : r.Leads log) (hconfig : r.config = config) {body : WeakPropose}
    {causal : Bool} (hm : r.respond m = r.respondWeak body causal) :
    Adds config log [⟨⟨body.id, body.command, true⟩, r⟩] r m := by
  let q : Request := ⟨body.id, body.command, true⟩
  obtain ⟨spoken, reply, hspoken, hreplica, heffects⟩ := h.handle_weak_eq hm
  refine h.handle_lead (q := q) hconfig ?_ ?_ (hconfig ▸ hspoken) hreplica heffects
  case refine_2 => rfl
  intro step hstep
  simp only [List.mem_cons, List.not_mem_nil, or_false] at hstep
  rcases hstep with rfl | rfl
  · exact fits_propose log q false reply causal
  · exact fun _ _ => ⟨rfl, fits_acceptFor log q⟩

/-- The leader answers from its results, or notes who waits. -/
theorem Leads.handle_sync (h : r.Leads log) (hconfig : r.config = config) (body : Sync) :
    Adds config log [] r (.sync body) := by
  have hserving := Serving.start h.toFollows hconfig h.isLeader
  cases hvalue : r.values[body.id]? with
  | none =>
      have hrespond : r.respond (.sync body) =
          ⟨{ r with syncWaiters := r.syncWaiters.insert body.id }, [], none⟩ := by
        simp [respond, respondSync, h.isLeader, hvalue]
      refine Leads.handle_keep ?_ ?_ ?_ ?_ ?_ <;> rw [hrespond]
      · exact h.congr (h.toFollows.congr rfl rfl rfl rfl) rfl rfl rfl rfl rfl rfl
      · exact hserving.reframe rfl
      · simp
      · rfl
  | some value =>
      have hrespond : r.respond (.sync body) =
          ⟨r, [.emit (r.syncReply body.id value)], none⟩ := by
        simp [respond, respondSync, h.isLeader, hvalue]
      refine Leads.handle_keep ?_ ?_ ?_ ?_ ?_ <;> rw [hrespond]
      · exact h
      · exact hserving
      · refine List.forall_mem_singleton.2 fun bound hbound => ?_
        refine ⟨hconfig ▸ config_leader_of_isLeader h.isLeader, ?_⟩
        exact (h.values_result hvalue).mono List.prefix_rfl (hbound rfl)
      · rfl

/-- The leader keeps leading the log with the slots that it gives out, gives out at most one for a
message, and none to a strong request that has one. -/
theorem Leads.handle (h : r.Leads log) (hconfig : r.config = config)
    (hm : m.Backed log issued true) :
    ∃ more, Adds config log more r m ∧ (more = [] ∨ ∃ q ∈ issued, m.request? = some q ∧
      (q.weak = false → r.slots.contains q.id = false) ∧ more = [⟨q, r⟩]) := by
  have hserving := Serving.start h.toFollows hconfig h.isLeader
  cases m with
  | propose body =>
      cases hnew : r.slots.contains body.id with
      | true =>
          have hrespond : r.respond (.propose body) = ⟨r, [], none⟩ := by
            simp [respond, leadPropose, h.isLeader, hnew]
          refine ⟨[], Leads.handle_keep ?_ ?_ ?_ ?_ ?_, .inl rfl⟩ <;> rw [hrespond]
          · exact h
          · exact hserving
          · simp
          · rfl
      | false =>
          exact ⟨_, h.handle_propose hconfig body hnew, .inr ⟨_, hm, rfl, fun _ => hnew, rfl⟩⟩
  | sync body => exact ⟨[], h.handle_sync hconfig body, .inl rfl⟩
  | weakPropose body =>
      exact ⟨_, h.handle_weak hconfig rfl, .inr ⟨_, hm, rfl, by simp, rfl⟩⟩
  | causalPropose body =>
      exact ⟨_, h.handle_weak hconfig rfl, .inr ⟨_, hm, rfl, by simp, rfl⟩⟩
  | accept body => exact absurd hm.1 (by simp)
  | acceptAck body =>
      have hsteps : (r.respond (.acceptAck body)).steps = [.route body.slot (.acceptAck body)] := by
        simp [respond, ackSteps, h.isLeader]
      refine ⟨[], Leads.handle_keep rfl h hserving ?_ ?_, .inl rfl⟩ <;> rw [hsteps]
      · exact List.forall_mem_singleton.2 trivial
      · rfl
  | commit body =>
      refine ⟨[], Leads.handle_keep rfl h hserving ?_ rfl, .inl rfl⟩
      exact List.forall_mem_singleton.2 trivial
  | batch body => exact hm.elim

/-- Whoever handles a backed message, what it sends is backed by the log with what the leader may
have added. -/
theorem handle_sound (hfollows : r.Follows log) (hconfig : r.config = config)
    (hleads : r.isLeader = true → r.Leads log) (hm : m.Backed log issued r.isLeader) :
    ∃ more, (if r.isLeader then r.assigned m else []) = more ∧
      (r.isLeader = true → (r.handle m).1.Leads (log ++ more)) ∧
      Serving config r.isLeader (log ++ more) r (r.handle m).1 (r.handle m).2 ∧
      (more = [] ∨ r.isLeader = true ∧ ∃ q ∈ issued, m.request? = some q ∧
        (q.weak = false → r.slots.contains q.id = false) ∧ more = [⟨q, r⟩]) := by
  cases hleader : r.isLeader with
  | false =>
      rw [hleader] at hm
      refine ⟨[], rfl, by simp, ?_, .inl rfl⟩
      rw [List.append_nil]
      exact serving_handle hfollows hconfig hleader hm
  | true =>
      rw [hleader] at hm
      obtain ⟨more, hadds, hmore⟩ := (hleads hleader).handle hconfig hm
      exact ⟨more, hadds.assigned_eq, fun _ => hadds.leads, hadds.serving,
        hmore.imp_right fun hq => ⟨rfl, hq⟩⟩

end WitnessReplication.Replica
