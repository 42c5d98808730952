import WitnessReplication.Proofs.Replica.Noting
import WitnessReplication.Proofs.Replica.Tracing

/-!
# What a replica plans shows in its view

A response to a message depends on what shows in the view of a replica, and not on who serves its
slots (`respond_bare`). The events that it hands to slots are events that the view takes, as long as
the leader gets nothing but strong commands, requests for results and acknowledgements
(`View.Sane.respond`).
-/

namespace WitnessReplication

/-- A message that brings the leader a strong command, a request for a result, or acknowledgements.
Any other replica may get anything. -/
def ReplicaMessage.Routine (leads : Bool) : ReplicaMessage → Prop
  | .propose _ => True
  | .sync _ => True
  | .acceptAck _ => True
  | .batch b => leads = true → b.accepts = []
  | .weakPropose _ => leads = false
  | .causalPropose _ => leads = false
  | .accept _ => leads = false
  | .commit _ => leads = false

namespace Replica

/-- A step that makes a host send something, or hands an event to a slot that is no wake-up. -/
def Step.Regular : Step → Prop
  | .emit effect => ∀ slot, effect ≠ .opened slot
  | .route _ event => event ≠ .wake

/-- What planned steps make a host send at once. -/
def spokenBy (leader : ReplicaId) : List Step → List Sent
  | [] => []
  | .emit effect :: steps => [effect].filterMap (Effect.sent leader) ++ spokenBy leader steps
  | .route _ _ :: steps => spokenBy leader steps

/-- The events of an epoch that planned steps route. -/
def routedBy (ballot : Ballot) : List Step → List (Slot × Event)
  | [] => []
  | .emit _ :: steps => routedBy ballot steps
  | .route slot event :: steps =>
    (if event.isStale ballot then [] else [(slot, event)]) ++ routedBy ballot steps

/-- A response of a replica without its slots. -/
def Response.bare (response : Response) : Response :=
  { response with replica := response.replica.bare }

variable {r : Replica} {m : ReplicaMessage} {ballot : Ballot} {steps : List Step}
variable {item : Slot × Event}

theorem route_of_mem_routedBy (h : item ∈ routedBy ballot steps) :
    .route item.1 item.2 ∈ steps := by
  induction steps with
  | nil => simp [routedBy] at h
  | cons step steps ih =>
      cases step with
      | emit effect => exact List.mem_cons_of_mem _ (ih h)
      | route slot event =>
          rcases List.mem_append.1 h with h | h
          · split at h
            · simp at h
            · rw [List.mem_singleton.1 h]
              exact List.mem_cons_self
          · exact List.mem_cons_of_mem _ (ih h)

/-! ### Responses without slots -/

theorem recordPending_bare (r : Replica) (id : CommandId) (c : Command) :
    r.bare.recordPending id c = (r.recordPending id c).bare := by
  simp only [recordPending, apply_ite bare]
  rfl

theorem retire_bare (r : Replica) (id : CommandId) : r.bare.retire id = (r.retire id).bare := by
  have hwitnessed : r.bare.witnessed[id]? = r.witnessed[id]? := rfl
  simp only [retire, hwitnessed]
  cases r.witnessed[id]? <;> rfl

theorem recordWitness_bare (r : Replica) (id : CommandId) (c : Command) (strong : Bool) :
    r.bare.recordWitness id c strong =
      ((r.recordWitness id c strong).1.bare, (r.recordWitness id c strong).2) := by
  simp only [recordWitness, apply_ite bare, ← retire_bare]
  rfl

theorem witnessWeak_bare (r : Replica) (id : CommandId) (c : Command) :
    r.bare.witnessWeak id c = (r.witnessWeak id c).bare := by
  simp only [witnessWeak, apply_ite bare, recordWitness_bare]
  rfl

theorem assign_bare (r : Replica) (id : CommandId) (c : Command) (strong : Bool) :
    r.bare.assign id c strong = ((r.assign id c strong).1.bare, (r.assign id c strong).2) := by
  have hassigned : r.bare.witness.assign id c strong r.bare.nextSlot =
    r.witness.assign id c strong r.nextSlot := rfl
  simp only [assign, hassigned]
  generalize r.witness.assign id c strong r.nextSlot = assigned
  obtain ⟨_, _ | _⟩ := assigned <;> rfl

theorem leadPropose_bare (r : Replica) (id : CommandId) (c : Command) :
    r.bare.leadPropose id c = (r.leadPropose id c).bare := by
  simp only [leadPropose, apply_ite Response.bare, assign_bare]
  generalize r.assign id c true = assigned
  obtain ⟨r', _ | ⟨slot, dep⟩⟩ := assigned
  · rfl
  · simp only [recordPending_bare]
    rfl

theorem witnessPropose_bare (r : Replica) (id : CommandId) (c : Command) :
    r.bare.witnessPropose id c = (r.witnessPropose id c).bare := by
  simp only [witnessPropose, apply_ite Response.bare, recordWitness_bare]
  rfl

theorem respondSync_bare (r : Replica) (id : CommandId) :
    r.bare.respondSync id = (r.respondSync id).bare := by
  have hvalue : r.bare.values[id]? = r.values[id]? := rfl
  simp only [respondSync, apply_ite Response.bare, hvalue]
  cases r.values[id]? <;> rfl

theorem respondWeak_bare (r : Replica) (body : WeakPropose) (causal : Bool) :
    r.bare.respondWeak body causal = (r.respondWeak body causal).bare := by
  simp only [respondWeak, apply_ite Response.bare, recordPending_bare, witnessWeak_bare]
  rfl

/-- What a replica does with a message, it does whoever serves its slots. -/
theorem respond_bare (r : Replica) (m : ReplicaMessage) :
    r.bare.respond m = (r.respond m).bare := by
  cases m with
  | propose body =>
      simp only [respond, apply_ite Response.bare, leadPropose_bare, witnessPropose_bare]
      rfl
  | sync body => exact respondSync_bare r body.id
  | weakPropose body => exact respondWeak_bare r body false
  | causalPropose body => exact respondWeak_bare r body true
  | accept a => rfl
  | acceptAck a => rfl
  | commit b => rfl
  | batch b => rfl

/-- A response leaves what is known of the slots. -/
theorem view_respond (r : Replica) (m : ReplicaMessage) :
    (r.respond m).replica.view = ⟨(r.view.base.respond m).replica, r.view.slots⟩ := by
  have hbase : (r.view.base.respond m).replica = (r.respond m).replica.bare :=
    congrArg Response.replica (r.respond_bare m)
  obtain ⟨⟨_, _, _, _, _, _, hframe⟩, -⟩ := r.noted_respond m
  rw [hbase]
  refine View.ext rfl ?_
  rw [hframe]
  rfl

/-! ### What a response brings -/

/-- No weak command is left for the leader to put in order. -/
theorem weak_respond_eq_none (hm : m.Routine r.isLeader) : (r.respond m).weak = none := by
  cases m with
  | propose body =>
      simp only [respond]
      split
      · have hlead : r.Noted none _ ∧ _ ∧ _ := plain_leadPropose (r := r) body
        exact hlead.2.1
      · unfold witnessPropose
        split <;> rfl
  | sync body =>
      simp only [respond, respondSync]
      split
      · rfl
      · split <;> rfl
  | weakPropose body => exact weak_respondWeak hm body false
  | causalPropose body => exact weak_respondWeak hm body true
  | accept a => rfl
  | acceptAck a => rfl
  | commit b => rfl
  | batch b => rfl

theorem Step.Plain.regular {fits : Slot → Event → Prop} {step : Step} (h : step.Plain fits)
    (hfits : ∀ slot event, fits slot event → event ≠ .wake) : step.Regular := by
  cases step with
  | emit effect =>
      rcases h with ⟨_, _, rfl, -⟩ | ⟨_, rfl⟩
      · exact fun slot => by simp
      · exact fun slot => by simp
  | route slot event => exact hfits slot event h

/-- What a response makes a host do opens no slot by itself, and wakes none. -/
theorem regular_respond (r : Replica) (m : ReplicaMessage) :
    ∀ step ∈ (r.respond m).steps, step.Regular := by
  have hweak : ∀ (body : WeakPropose) (causal : Bool),
      ∀ step ∈ (r.respondWeak body causal).steps, step.Regular := by
    intro body causal step hstep
    obtain ⟨-, -, spoken, hsteps, hspoken⟩ := plain_respondWeak (r := r) body causal
    rw [hsteps] at hstep
    obtain ⟨e, he, rfl⟩ := List.mem_map.1 hstep
    obtain ⟨_, _, rfl, -⟩ := hspoken e he
    exact fun slot => by simp
  have hack : ∀ (a : AcceptAck), ∀ step ∈ r.ackSteps a, step.Regular := by
    intro a step hstep
    rw [plain_ackSteps hstep]
    simp [Step.Regular]
  intro step hstep
  cases m with
  | propose body =>
      simp only [respond] at hstep
      split at hstep
      · have hlead : r.Noted none _ ∧ _ ∧ _ := plain_leadPropose (r := r) body
        refine (hlead.2.2 step hstep).regular ?_
        rintro slot event ⟨p, rfl, -⟩
        simp
      · unfold witnessPropose at hstep
        split at hstep
        · simp at hstep
        · rw [List.mem_singleton.1 hstep]
          exact fun slot => by simp
  | sync body =>
      have hsync : r.Noted none _ ∧ _ ∧ ∀ step ∈ (r.respondSync body.id).steps,
        step.Plain fun _ event => event ≠ .wake := plain_respondSync body.id
      exact (hsync.2.2 step hstep).regular fun _ _ hne => hne
  | weakPropose body => exact hweak body false step hstep
  | causalPropose body => exact hweak body true step hstep
  | accept a =>
      rw [List.mem_singleton.1 hstep]
      simp [Step.Regular]
  | acceptAck a => exact hack a step hstep
  | commit b =>
      rw [List.mem_singleton.1 hstep]
      simp [Step.Regular]
  | batch b =>
      rcases List.mem_append.1 hstep with hstep | hstep
      · obtain ⟨a, -, rfl⟩ := List.mem_map.1 hstep
        simp [Step.Regular]
      · obtain ⟨a, -, hstep⟩ := List.mem_flatMap.1 hstep
        exact hack a step hstep

/-- The leader gives out at most the next slot, and then it proposes the command there and routes
nothing else. -/
theorem routed_leadPropose (ballot : Ballot) (id : CommandId) (c : Command) :
    r.nextSlot ≤ (r.leadPropose id c).replica.nextSlot ∧
      (routedBy ballot (r.leadPropose id c).steps = [] ∨
        ∃ p, routedBy ballot (r.leadPropose id c).steps = [(r.nextSlot, .propose p)] ∧
          r.nextSlot < (r.leadPropose id c).replica.nextSlot) := by
  unfold leadPropose
  split
  · exact ⟨Nat.le_refl _, .inl rfl⟩
  · simp only [assign]
    generalize r.witness.assign id c true r.nextSlot = assigned
    obtain ⟨w, e | dep⟩ := assigned
    · exact ⟨Nat.le_succ _, .inl rfl⟩
    · dsimp only
      obtain ⟨_, hpending⟩ := ({ r with
        witness := w
        nextSlot := r.nextSlot + 1
        slots := r.slots.insert id r.nextSlot } : Replica).recordPending_frame id c
      rw [hpending]
      exact ⟨Nat.le_succ _, .inr ⟨_, rfl, Nat.lt_succ_self _⟩⟩

/-- Noting a request keeps a view sane if the leader takes no slot back. -/
theorem View.Sane.noted {q? : Option Request} {r' : Replica} (hsane : r.view.Sane)
    (hnoted : r.Noted q? r') (hnext : r.isLeader = true → r.nextSlot ≤ r'.nextSlot) :
    r'.view.Sane := by
  obtain ⟨⟨_, _, _, _, _, _, rfl⟩, -⟩ := hnoted
  exact ⟨hsane.orderly, hsane.slots, fun hleads slot hle =>
    hsane.unassigned hleads slot (Nat.le_trans (hnext hleads) hle)⟩

/-- The leader takes any acknowledgements. -/
theorem View.suits_of_acks {v : View} {events : List (Slot × Event)}
    (hleads : v.base.isLeader = true) (h : ∀ item ∈ events, ∃ a, item.2 = .acceptAck a) :
    v.Suits events := by
  refine ⟨fun item hmem => ?_, fun slot p hmem => ?_⟩
  · obtain ⟨a, ha⟩ := h item hmem
    rw [ha]
    exact hleads
  · obtain ⟨a, ha⟩ := h _ hmem
    simp at ha

/-- The other replicas take what the leader announces. -/
theorem View.suits_of_announced {v : View} {events : List (Slot × Event)}
    (hleads : v.base.isLeader = false)
    (h : ∀ item ∈ events, (∃ a, item.2 = .accept a) ∨ ∃ b, item.2 = .commit b) :
    v.Suits events := by
  refine ⟨fun item hmem => ?_, fun slot p hmem => ?_⟩
  · rcases h item hmem with ⟨a, ha⟩ | ⟨b, hb⟩
    · rw [ha]
      exact hleads
    · rw [hb]
      exact hleads
  · rcases h _ hmem with ⟨a, ha⟩ | ⟨b, hb⟩
    · simp at ha
    · simp at hb

/-- The leader proposes for a slot that it has just given out, or routes acknowledgements. -/
theorem View.Sane.respond_of_isLeader (hsane : r.view.Sane) (hleader : r.isLeader = true)
    (hm : m.Routine true) (ballot : Ballot) :
    r.nextSlot ≤ (r.respond m).replica.nextSlot ∧
      (r.respond m).replica.view.Suits (routedBy ballot (r.respond m).steps) := by
  obtain ⟨⟨_, _, _, _, _, _, hframe⟩, -⟩ := r.noted_respond m
  have hleads : (r.respond m).replica.view.base.isLeader = true := by
    rw [hframe]
    exact hleader
  have hslots : (r.respond m).replica.view.slots = r.view.slots := by
    rw [hframe]
    rfl
  cases m with
  | propose body =>
      have hrespond : r.respond (.propose body) = r.leadPropose body.id body.command := by
        simp only [Replica.respond, hleader, if_true]
      rw [hrespond] at hleads hslots ⊢
      obtain ⟨hnext, hnone | ⟨p, hone, hnew⟩⟩ :=
        routed_leadPropose (r := r) ballot body.id body.command
      · rw [hnone]
        exact ⟨hnext, View.suits_of_acks hleads (by simp)⟩
      · rw [hone]
        refine ⟨hnext, fun item hmem => ?_, fun slot q hmem => ?_⟩
        · obtain rfl := List.mem_singleton.1 hmem
          refine ⟨hleads, hnew, ?_⟩
          rw [hslots]
          exact hsane.unassigned hleader r.nextSlot (Nat.le_refl _)
        · rw [List.mem_singleton.1 hmem]
  | sync body =>
      simp only [Replica.respond, respondSync] at hleads ⊢
      split
      · exact ⟨Nat.le_refl _, View.suits_of_acks hleader (by simp [routedBy])⟩
      · split
        · exact ⟨Nat.le_refl _, View.suits_of_acks hleader (by simp [routedBy])⟩
        · exact ⟨Nat.le_refl _, View.suits_of_acks hleader (by simp [routedBy])⟩
  | acceptAck a =>
      refine ⟨Nat.le_refl _, View.suits_of_acks hleads fun item hmem => ?_⟩
      obtain ⟨-, heq⟩ := Step.route.inj (plain_ackSteps (route_of_mem_routedBy hmem))
      exact ⟨a, heq⟩
  | batch b =>
      refine ⟨Nat.le_refl _, View.suits_of_acks hleads fun item hmem => ?_⟩
      have hmem := route_of_mem_routedBy hmem
      rw [Replica.respond, hm rfl, List.map_nil, List.nil_append] at hmem
      obtain ⟨a, -, hmem⟩ := List.mem_flatMap.1 hmem
      obtain ⟨-, heq⟩ := Step.route.inj (plain_ackSteps hmem)
      exact ⟨a, heq⟩
  | weakPropose body => simp [ReplicaMessage.Routine] at hm
  | causalPropose body => simp [ReplicaMessage.Routine] at hm
  | accept a => simp [ReplicaMessage.Routine] at hm
  | commit b => simp [ReplicaMessage.Routine] at hm

/-- Another replica hands on what the leader has announced. -/
theorem suits_respond_of_not_isLeader (hleader : r.isLeader = false) (ballot : Ballot) :
    (r.respond m).replica.view.Suits (routedBy ballot (r.respond m).steps) := by
  obtain ⟨⟨_, _, _, _, _, _, hframe⟩, -⟩ := r.noted_respond m
  have hleads : (r.respond m).replica.view.base.isLeader = false := by
    rw [hframe]
    exact hleader
  have hacks : ∀ a, r.ackSteps a = [] := fun a => by simp [ackSteps, hleader]
  have hweak : ∀ (body : WeakPropose) (causal : Bool) (item : Slot × Event),
      item ∉ routedBy ballot (r.respondWeak body causal).steps := by
    intro body causal item hmem
    obtain ⟨-, -, spoken, hsteps, -⟩ := plain_respondWeak (r := r) body causal
    have hroute := route_of_mem_routedBy hmem
    rw [hsteps] at hroute
    simp at hroute
  refine View.suits_of_announced hleads fun item hmem => ?_
  cases m with
  | propose body =>
      have hroute := route_of_mem_routedBy hmem
      simp only [respond, hleader, Bool.false_eq_true, if_false, witnessPropose] at hroute
      split at hroute <;> simp at hroute
  | sync body =>
      have hroute := route_of_mem_routedBy hmem
      simp [respond, respondSync, hleader] at hroute
  | weakPropose body => exact absurd hmem (hweak body false item)
  | causalPropose body => exact absurd hmem (hweak body true item)
  | accept a =>
      have hroute := route_of_mem_routedBy hmem
      obtain ⟨-, heq⟩ := Step.route.inj (List.mem_singleton.1 hroute)
      exact .inl ⟨a, heq⟩
  | acceptAck a =>
      have hroute := route_of_mem_routedBy hmem
      simp [respond, hacks] at hroute
  | commit b =>
      have hroute := route_of_mem_routedBy hmem
      obtain ⟨-, heq⟩ := Step.route.inj (List.mem_singleton.1 hroute)
      exact .inr ⟨b, heq⟩
  | batch b =>
      have hroute := route_of_mem_routedBy hmem
      simp only [respond, hacks, List.mem_append, List.mem_flatMap, List.not_mem_nil, and_false,
        exists_false, or_false] at hroute
      obtain ⟨a, -, heq⟩ := List.mem_map.1 hroute
      exact .inl ⟨a, (Step.route.inj heq).2.symm⟩

/-- After a response the view is sane, and the events that are handed to slots suit it. -/
theorem View.Sane.respond (hsane : r.view.Sane) (hm : m.Routine r.isLeader) (ballot : Ballot) :
    (r.respond m).replica.view.Sane ∧
      (r.respond m).replica.view.Suits (routedBy ballot (r.respond m).steps) := by
  cases hleader : r.isLeader with
  | true =>
      rw [hleader] at hm
      obtain ⟨hnext, hsuits⟩ := hsane.respond_of_isLeader hleader hm ballot
      exact ⟨hsane.noted (r.noted_respond m) fun _ => hnext, hsuits⟩
  | false =>
      refine ⟨hsane.noted (r.noted_respond m) fun hleads => ?_,
        suits_respond_of_not_isLeader hleader ballot⟩
      rw [hleader] at hleads
      simp at hleads

/-- A replica that has seen nothing is sane. -/
theorem sane_initial (id : ReplicaId) (config : Config) : (initial id config).view.Sane where
  orderly slot _ _ := ⟨Nat.zero_le slot, by simp [view, initial, bare]⟩
  slots slot := by
    have hslot : (initial id config).view.slots slot = {} :=
      slots_view_of_not_live (by simp [initial])
    rw [hslot]
    exact LiveSlot.sane_new _
  unassigned _ slot _ := by
    have hslot : (initial id config).view.slots slot = {} :=
      slots_view_of_not_live (by simp [initial])
    rw [hslot]

end Replica

end WitnessReplication
