import WitnessReplication.Proofs.Replica.Carrying
import WitnessReplication.Proofs.Replica.Repeating

/-!
# Noting, then changing

A replica that handles a message first notes what the message brings: the leader gives a request
its slot, the others witness it, a write is remembered, a waiting client is put down
(`Replica.noted`). From then on it hands events to its slots (`Replica.routes_handle`), which take
them and execute: a sequence of changes (`Replica.Routes.changes`).

Whether the write of a request is remembered depends on where the request arrives
(`Replica.remembers`): the leader remembers what it gives a slot, and the others remember weak
writes where every replica takes weak commands.
-/

namespace WitnessReplication.Replica

/-- A replica that has noted what a message brings, before its slots take any event. -/
def noted (r : Replica) (m : ReplicaMessage) : Replica :=
  match (r.respond m).weak with
  | none => (r.respond m).replica
  | some w => ((r.respond m).replica.assign w.id w.command false).1

/-- A sequence of events handed to slots, with all their effects in order. -/
inductive Routes (fits : Slot → Event → Prop) : Replica → List Effect → Replica → Prop
  | refl (r : Replica) : Routes fits r [] r
  | tail {r r' : Replica} {effects : List Effect} {slot : Slot} {event : Event}
      (h : Routes fits r effects r') (hfit : fits slot event) :
      Routes fits r (effects ++ (r'.route slot event).2) (r'.route slot event).1

/-- A proposal that a message leads to is answered after execution if the variant says so, as a
causal command if the message brings one. The result of a strong command follows unasked if the
command is refused. -/
def Event.AnsweredAs (r : Replica) (m : ReplicaMessage) : Event → Prop
  | .propose p => p.reply = (p.weak && r.config.variant.repliesAfterExecute) ∧
      (p.causal = true → ∃ body, m = .causalPropose body) ∧
      (p.weak = false → ∃ reply, .emit (.tell p.id.client (.reply reply)) ∈ (r.respond m).steps ∧
        reply.id = p.id ∧ p.sync = decide (reply.ok = .refused))
  | _ => True

/-- A message hands an event to a slot, and a proposal is answered as the message asks. -/
def Event.Planned (r : Replica) (m : ReplicaMessage) (slot : Slot) (event : Event) : Prop :=
  event.CameIn r m slot ∧ event.AnsweredAs r m

/-- What a replica does with a message is what its slots do, what it plans to say, and the accept
of a weak command. What is of another kind than the latter two is done by slots, in this order. -/
structure Splits (effects : List Effect) (steps : List Step) (all : List Effect) : Prop where
  subset : effects ⊆ all
  said : ∀ e, .emit e ∈ steps → e ∈ all
  complete : ∀ e ∈ all, e ∈ effects ∨ .emit e ∈ steps ∨ ∃ a, e = .accept a
  filter_eq : ∀ p : Effect → Bool, (∀ e, .emit e ∈ steps → p e = false) →
    (∀ a, p (.accept a) = false) → all.filter p = effects.filter p

/-- Whether a replica remembers the write of a request that arrives. -/
def remembers (r : Replica) (q : Request) : Bool :=
  if r.isLeader then q.weak || !r.slots.contains q.id
  else q.weak && decide (r.config.variant = .everyReplica)

variable {log log' : Log} {config : Config} {issued : List Request} {base r r' : Replica}
variable {m : ReplicaMessage} {q : Request} {fits : Slot → Event → Prop} {steps : List Step}

/-! ### What follows the noting -/

namespace Routes

variable {r'' : Replica} {effects effects' : List Effect}

theorem trans (h : Routes fits r effects r') (h' : Routes fits r' effects' r'') :
    Routes fits r (effects ++ effects') r'' := by
  induction h' with
  | refl => simpa using h
  | tail _ hfit ih =>
      rw [← List.append_assoc]
      exact tail ih hfit

/-- Handing events to slots is a sequence of changes. -/
theorem changes (h : Routes fits r effects r') : Changes fits r effects r' := by
  induction h with
  | refl => exact .refl _
  | tail _ hfit ih => exact ih.trans (changes_route hfit)

/-- What every handing of an event to a slot keeps, a sequence of them keeps. -/
theorem preserve {P : Replica → Prop}
    (hroute : ∀ {r slot event}, P r → fits slot event → P (r.route slot event).1)
    (h : Routes fits r effects r') (hp : P r) : P r' := by
  induction h with
  | refl => exact hp
  | tail _ hfit ih => exact hroute ih hfit

end Routes

/-- Planned steps hand fitting events to slots. -/
theorem routes_performAll
    (hsteps : ∀ slot event, Step.route slot event ∈ steps → fits slot event) :
    ∃ effects, Routes fits r effects (r.performAll steps).1 ∧
      Splits effects steps (r.performAll steps).2 := by
  induction steps generalizing r with
  | nil =>
      exact ⟨[], .refl r, List.Subset.refl _, by simp, by simp [performAll], fun _ _ _ => rfl⟩
  | cons step steps ih =>
      have hrest : ∀ slot event, Step.route slot event ∈ steps → fits slot event :=
        fun slot event hmem => hsteps slot event (List.mem_cons_of_mem _ hmem)
      have hsaid : ∀ e, .emit e ∈ step :: steps → e ∈ (r.performAll (step :: steps)).2 :=
        fun e hmem => mem_performAll hmem
      cases step with
      | emit e =>
          obtain ⟨effects, hroutes, hsplits⟩ := ih (r := r) hrest
          refine ⟨effects, hroutes,
            List.Subset.trans hsplits.subset (List.subset_append_right _ _), hsaid, ?_, ?_⟩
          · intro e' hmem
            rcases List.mem_append.1 hmem with hmem | hmem
            · obtain rfl := List.mem_singleton.1 hmem
              exact .inr (.inl List.mem_cons_self)
            · exact (hsplits.complete e' hmem).imp_right (Or.imp_left (List.mem_cons_of_mem _))
          · intro p hsilent haccept
            rw [← hsplits.filter_eq p (fun e' hmem => hsilent e' (List.mem_cons_of_mem _ hmem))
              haccept]
            exact List.filter_cons_of_neg (by simp [hsilent e List.mem_cons_self])
      | route slot event =>
          have hfirst : Routes fits r ([] ++ (r.route slot event).2) (r.route slot event).1 :=
            .tail (.refl r) (hsteps slot event List.mem_cons_self)
          rw [List.nil_append] at hfirst
          obtain ⟨effects, hroutes, hsplits⟩ := ih (r := (r.route slot event).1) hrest
          refine ⟨_, hfirst.trans hroutes, List.append_subset.2 ⟨List.subset_append_left _ _,
            List.Subset.trans hsplits.subset (List.subset_append_right _ _)⟩, hsaid, ?_, ?_⟩
          · intro e' hmem
            rcases List.mem_append.1 hmem with hmem | hmem
            · exact .inl (List.mem_append_left _ hmem)
            · exact (hsplits.complete e' hmem).imp (List.mem_append_right _)
                (Or.imp_left (List.mem_cons_of_mem _))
          · intro p hsilent haccept
            rw [List.filter_append, ← hsplits.filter_eq p
              (fun e' hmem => hsilent e' (List.mem_cons_of_mem _ hmem)) haccept]
            exact List.filter_append _ _

/-- Putting a weak command in order hands its proposal to a slot once it has that. -/
theorem routes_performWeak {w : WeakCommand}
    (hfits : ∀ slot (p : Proposal), p.id = w.id → p.command = w.command → p.weak = true →
      p.reply = r.config.variant.repliesAfterExecute → p.causal = w.causal →
      .accept (r.acceptFor slot p.id p.command p.weak) ∈ (r.performWeak w).2 →
        fits slot (.propose p)) :
    ∃ effects, Routes fits (r.assign w.id w.command false).1 effects (r.performWeak w).1 ∧
      Splits effects [] (r.performWeak w).2 := by
  have hconfig : (r.assign w.id w.command false).1.config = r.config := by
    unfold assign
    dsimp only
    split <;> rfl
  unfold performWeak orderWeak at hfits ⊢
  cases hassign : r.assign w.id w.command false with
  | mk r₁ outcome =>
      rw [hassign] at hconfig
      simp only [hassign] at hfits ⊢
      cases outcome with
      | error e => exact ⟨[], .refl r₁, List.Subset.refl _, by simp, by simp, fun _ _ _ => rfl⟩
      | ok given =>
          have haccept : r₁.acceptFor = r.acceptFor := by
            unfold acceptFor
            rw [hconfig]
          have hfit : ∀ slot event, Step.route slot event ∈ [
              Step.route given.1 (.propose ⟨w.id, w.command, true, false,
                r.config.variant.repliesAfterExecute, w.causal⟩),
              .emit (.accept (r₁.acceptFor given.1 w.id w.command true))] → fits slot event := by
            intro slot event hmem
            simp only [List.mem_cons, Step.route.injEq, reduceCtorEq, List.not_mem_nil,
              or_false] at hmem
            obtain ⟨rfl, rfl⟩ := hmem
            refine hfits _ _ rfl rfl rfl rfl rfl (mem_performAll ?_)
            rw [haccept]
            simp
          obtain ⟨effects, hroutes, hsplits⟩ := routes_performAll (r := r₁) hfit
          have hsaid : ∀ e, Step.emit e ∈ [
              Step.route given.1 (.propose ⟨w.id, w.command, true, false,
                r.config.variant.repliesAfterExecute, w.causal⟩),
              .emit (.accept (r₁.acceptFor given.1 w.id w.command true))] →
              e = .accept (r₁.acceptFor given.1 w.id w.command true) := by
            intro e hmem
            simpa using hmem
          refine ⟨effects, hroutes, hsplits.subset, by simp, fun e hmem => ?_, ?_⟩
          · rcases hsplits.complete e hmem with he | hmem | haccept
            · exact .inl he
            · exact .inr (.inr ⟨_, hsaid e hmem⟩)
            · exact .inr (.inr haccept)
          · intro p _ haccept
            exact hsplits.filter_eq p (fun e hmem => hsaid e hmem ▸ haccept _) haccept

theorem causal_respondWeak {body : WeakPropose} {causal : Bool} {w : WeakCommand}
    (h : (r.respondWeak body causal).weak = some w) : w.causal = causal := by
  unfold respondWeak at h
  split at h
  · simp at h
  · dsimp only at h
    split at h
    · obtain rfl := Option.some.inj h
      rfl
    · simp at h

theorem routes_handle_weak {body : WeakPropose} {causal : Bool}
    (hm : r.respond m = r.respondWeak body causal)
    (hq : m.request? = some ⟨body.id, body.command, true⟩)
    (hcausal : causal = true → ∃ body, m = .causalPropose body)
    (hfits : ∀ slot (event : Event), event.Planned r m slot → fits slot event) :
    ∃ effects, Routes fits (r.noted m) effects (r.handle m).1 ∧
      Splits effects (r.respond m).steps (r.handle m).2 := by
  obtain ⟨hnoted, hweak, spoken, hsteps, -⟩ := plain_respondWeak (r := r) body causal
  have hdone : (r.respond m).replica.performAll (r.respond m).steps =
      ((r.respond m).replica, spoken) := by
    rw [hm, hsteps, performAll_emit]
  have hsaid : ∀ e, .emit e ∈ (r.respond m).steps ↔ e ∈ spoken := by
    intro e
    rw [hm, hsteps, List.mem_map]
    exact ⟨fun ⟨_, hmem, heq⟩ => Step.emit.inj heq ▸ hmem, fun hmem => ⟨e, hmem, rfl⟩⟩
  have haccept : (r.respondWeak body causal).replica.acceptFor = r.acceptFor := by
    unfold acceptFor
    rw [hnoted.config_eq]
  have hconfig : (r.respond m).replica.config = r.config := hm ▸ hnoted.config_eq
  unfold noted
  cases hw : (r.respond m).weak with
  | none =>
      have hhandle : r.handle m = ((r.respond m).replica, spoken) := by
        simp only [handle, hw, hdone]
      rw [hhandle]
      refine ⟨[], .refl _, List.nil_subset _, fun e hmem => (hsaid e).1 hmem,
        fun e hmem => .inr (.inl ((hsaid e).2 hmem)), fun p hsilent _ => ?_⟩
      exact List.filter_eq_nil_iff.2 fun e he => by simp [hsilent e ((hsaid e).2 he)]
  | some w =>
      have hhandle : r.handle m = (((r.respond m).replica.performWeak w).1,
          spoken ++ ((r.respond m).replica.performWeak w).2) := by
        simp only [handle, hw, hdone]
      obtain ⟨hid, hcommand⟩ := hweak w (hm ▸ hw)
      have hwcausal : w.causal = causal := causal_respondWeak (hm ▸ hw)
      have hfit : ∀ slot (p : Proposal), p.id = w.id → p.command = w.command → p.weak = true →
          p.reply = (r.respond m).replica.config.variant.repliesAfterExecute →
          p.causal = w.causal →
          .accept ((r.respond m).replica.acceptFor slot p.id p.command p.weak) ∈
            ((r.respond m).replica.performWeak w).2 → fits slot (.propose p) := by
        intro slot p hpid hpcommand hpweak hpreply hpcausal hmem
        refine hfits slot (.propose p) ⟨⟨?_, ?_⟩, ?_, fun hp => hcausal ?_, by simp [hpweak]⟩
        · rw [hq, hpid, hpcommand, hpweak, hid, hcommand]
        · rw [hhandle, ← haccept, ← hm]
          exact List.mem_append_right _ hmem
        · rw [hpreply, hpweak, hconfig, Bool.true_and]
        · rw [← hwcausal, ← hpcausal, hp]
      obtain ⟨effects, hroutes, hsplits⟩ := routes_performWeak hfit
      rw [hhandle]
      refine ⟨effects, hroutes, List.Subset.trans hsplits.subset (List.subset_append_right _ _),
        fun e hmem => List.mem_append_left _ ((hsaid e).1 hmem), fun e hmem => ?_,
        fun p hsilent haccept => ?_⟩
      · rcases List.mem_append.1 hmem with hmem | hmem
        · exact .inr (.inl ((hsaid e).2 hmem))
        · exact (hsplits.complete e hmem).imp_right fun h => .inr (h.resolve_left (by simp))
      · have hspoken : spoken.filter p = [] :=
          List.filter_eq_nil_iff.2 fun e he => by simp [hsilent e ((hsaid e).2 he)]
        rw [List.filter_append, hspoken, List.nil_append]
        exact hsplits.filter_eq p (by simp) haccept

/-- What the leader proposes for a strong command is answered at once, and its result follows if
that is a refusal. -/
theorem answeredAs_leadPropose {slot : Slot} {event : Event} {body : Propose}
    (hm : r.respond (.propose body) = r.leadPropose body.id body.command)
    (h : Step.route slot event ∈ (r.leadPropose body.id body.command).steps) :
    event.AnsweredAs r (.propose body) := by
  unfold Event.AnsweredAs
  rw [hm]
  unfold leadPropose at h ⊢
  split at h
  · simp at h
  · split at h
    · simp at h
    · simp only [List.mem_cons, Step.route.injEq, reduceCtorEq, List.not_mem_nil, or_false] at h
      obtain ⟨-, rfl⟩ := h
      rename_i hnew _ _ _ _ _
      rw [if_neg hnew]
      exact ⟨rfl, by simp, fun _ => ⟨_, List.mem_cons_of_mem _ List.mem_cons_self, rfl, rfl⟩⟩

/-- Handling a message is noting it and then handing events to slots. -/
theorem routes_handle
    (hfits : ∀ slot (event : Event), event.Planned r m slot → fits slot event) :
    ∃ effects, Routes fits (r.noted m) effects (r.handle m).1 ∧
      Splits effects (r.respond m).steps (r.handle m).2 := by
  have hplanned : (r.respond m).weak = none →
      (∀ slot event, Step.route slot event ∈ (r.respond m).steps → event.Planned r m slot) →
      ∃ effects, Routes fits (r.noted m) effects (r.handle m).1 ∧
        Splits effects (r.respond m).steps (r.handle m).2 := by
    intro hweak hsteps
    have hhandle : r.handle m = (r.respond m).replica.performAll (r.respond m).steps := by
      simp only [handle, hweak]
    have hnoted : r.noted m = (r.respond m).replica := by simp only [noted, hweak]
    rw [hhandle, hnoted]
    exact routes_performAll fun slot event hmem => hfits slot event (hsteps slot event hmem)
  cases m with
  | propose body =>
      cases hleader : r.isLeader with
      | true =>
          have hm : r.respond (.propose body) = r.leadPropose body.id body.command := by
            simp [respond, hleader]
          have hlead : r.Noted none (r.leadPropose body.id body.command).replica ∧ _ ∧ _ :=
            plain_leadPropose body
          obtain ⟨-, hweak, hsteps⟩ := hlead
          rw [← hm] at hweak hsteps
          refine hplanned hweak fun slot event hmem => ⟨?_, answeredAs_leadPropose hm (hm ▸ hmem)⟩
          obtain ⟨p, rfl, hid, hcommand, hpweak, hmem⟩ := hsteps _ hmem
          refine ⟨by rw [hid, hcommand, hpweak]; rfl, ?_⟩
          simp only [handle, hweak]
          exact mem_performAll hmem
      | false =>
          have hm : r.respond (.propose body) = r.witnessPropose body.id body.command := by
            simp [respond, hleader]
          apply hplanned <;> rw [hm] <;> unfold witnessPropose
          · split <;> rfl
          · intro slot event hmem
            split at hmem <;> simp at hmem
  | sync body =>
      have hweak : (r.respondSync body.id).weak = none := by
        unfold respondSync
        split
        · rfl
        · split <;> rfl
      refine hplanned hweak fun slot event hmem => ?_
      simp only [respond, respondSync] at hmem
      split at hmem
      · simp at hmem
      · split at hmem <;> simp at hmem
  | weakPropose body => exact routes_handle_weak rfl rfl (by simp) hfits
  | causalPropose body => exact routes_handle_weak rfl rfl (fun _ => ⟨body, rfl⟩) hfits
  | accept a =>
      refine hplanned rfl fun slot event hmem => ?_
      obtain ⟨rfl, rfl⟩ := Step.route.inj (List.mem_singleton.1 hmem)
      exact ⟨⟨rfl, .inl rfl⟩, trivial⟩
  | acceptAck a =>
      refine hplanned rfl fun slot event hmem => ?_
      obtain ⟨rfl, rfl⟩ := Step.route.inj (plain_ackSteps hmem)
      exact ⟨⟨rfl, .inl rfl⟩, trivial⟩
  | commit b =>
      refine hplanned rfl fun slot event hmem => ?_
      obtain ⟨rfl, rfl⟩ := Step.route.inj (List.mem_singleton.1 hmem)
      exact ⟨⟨rfl, rfl⟩, trivial⟩
  | batch b =>
      refine hplanned rfl fun slot event hmem => ?_
      rcases List.mem_append.1 hmem with hmem | hmem
      · obtain ⟨a, ha, heq⟩ := List.mem_map.1 hmem
        obtain ⟨rfl, rfl⟩ := Step.route.inj heq
        exact ⟨⟨rfl, .inr ⟨b, rfl, ha⟩⟩, trivial⟩
      · obtain ⟨a, ha, hmem⟩ := List.mem_flatMap.1 hmem
        obtain ⟨rfl, rfl⟩ := Step.route.inj (plain_ackSteps hmem)
        exact ⟨⟨rfl, .inr ⟨b, rfl, ha⟩⟩, trivial⟩

/-- A response to a message only notes. -/
theorem noted_respond (r : Replica) (m : ReplicaMessage) :
    r.Noted m.request? (r.respond m).replica := by
  cases m with
  | propose body =>
      simp only [respond]
      split
      · exact (plain_leadPropose body).1
      · unfold witnessPropose
        split
        · exact .refl r
        · exact (Noted.recordWitness r ⟨body.id, body.command, false⟩).1
  | sync body =>
      simp only [respond, respondSync]
      split
      · exact .refl r
      · split
        · exact .refl r
        · exact .of_frame rfl
  | weakPropose body => exact (plain_respondWeak body false).1
  | causalPropose body => exact (plain_respondWeak body true).1
  | accept a => exact .refl r
  | acceptAck a => exact .refl r
  | commit b => exact .refl r
  | batch b => exact .refl r

/-- Noting a message only notes. -/
theorem noted_noted (r : Replica) (m : ReplicaMessage) : r.Noted m.request? (r.noted m) := by
  unfold noted
  split
  · exact r.noted_respond m
  · exact (r.noted_respond m).trans (.assign ..)

namespace Attends

/-- A property of a replica and of what its slots have done, kept by every change with an event that
the message hands to a slot, holds after the message if it holds once that is noted. -/
theorem preserves {P : Replica → List Effect → Prop} (h : base.Attends config log issued m log')
    (hnoted : P (base.noted m) [])
    (hchange : ∀ {r r' sent effects}, Serving base.config base.isLeader log' base r [] →
      P r sent → Change (fun slot event => event.Fits log' base.isLeader slot ∧
        event.Planned base m slot) r effects r' → P r' (sent ++ effects)) :
    ∃ effects, Splits effects (base.respond m).steps (base.handle m).2 ∧
      P (base.handle m).1 effects := by
  have hplanned : ∀ slot (event : Event), event.Planned base m slot →
      event.Fits log' base.isLeader slot ∧ event.Planned base m slot :=
    fun _ _ hplan => ⟨hplan.1.fits h.backed h.prefix_log h.serving, hplan⟩
  obtain ⟨effects, hroutes, hsplits⟩ := routes_handle hplanned
  have hserving : Serving base.config base.isLeader log' base (base.noted m) [] :=
    (noted_noted base m).serving (.start (h.follows.mono h.prefix_log) rfl rfl)
  have hkept := hroutes.changes.preserve
    (P := fun r sent => Serving base.config base.isLeader log' base r [] ∧ P r sent)
    (fun hp hc => ⟨((hc.mono fun _ _ hfit => hfit.1).serving hp.1).forget,
      hchange hp.1 hp.2 hc⟩) [] ⟨hserving, hnoted⟩
  exact ⟨effects, hsplits, hkept.2⟩

end Attends

/-! ### What is noted -/

/-- The leader notes a request that it takes up by giving it the next slot. -/
theorem Leads.noted_eq (h : r.Leads log) (hq : m.request? = some q)
    (hnew : q.weak = false → r.slots.contains q.id = false) : r.noted m = r.lead q := by
  cases hkind : q.weak with
  | false =>
      obtain rfl := ReplicaMessage.eq_propose hq hkind
      have hpropose := h.leadPropose_eq hkind (hnew hkind)
      unfold noted
      simp only [respond, h.isLeader, if_true]
      rw [hpropose]
  | true =>
      obtain ⟨body, causal, rfl, hrespond⟩ := respond_weak hq hkind
      have hassign := h.assign_witnessWeak (q := ⟨body.id, body.command, true⟩) rfl
      unfold noted
      rw [hrespond, respondWeak_of_isLeader h.isLeader]
      exact congrArg Prod.fst hassign

/-- The leader notes nothing of a strong command that it knows. -/
theorem noted_known (hleader : r.isLeader = true) (hq : m.request? = some q)
    (hstrong : q.weak = false) (hknown : r.slots.contains q.id = true) : r.noted m = r := by
  obtain rfl := ReplicaMessage.eq_propose hq hstrong
  simp [noted, respond, hleader, leadPropose, hknown]

/-- A replica that does not lead notes a strong command by witnessing it. -/
theorem noted_strong_of_not_isLeader (hleader : r.isLeader = false) (hq : m.request? = some q)
    (hstrong : q.weak = false) :
    r.noted m = if r.witnessed.contains q.id then r
      else (r.recordWitness q.id q.command true).1 := by
  obtain rfl := ReplicaMessage.eq_propose hq hstrong
  cases hknown : r.witnessed.contains q.id <;>
    simp [noted, respond, hleader, witnessPropose, hknown]

/-- A replica that does not lead notes a weak command by remembering its write and witnessing it,
where every replica takes weak commands. -/
theorem noted_weak_of_not_isLeader (hleader : r.isLeader = false) (hq : m.request? = some q)
    (hweak : q.weak = true) :
    r.noted m = if r.config.variant = .everyReplica then
      ((r.recordPending q.id q.command).recordWitness q.id q.command false).1 else r := by
  rw [← handle_weak_of_not_isLeader hleader hq hweak]
  obtain ⟨body, causal, rfl, hrespond⟩ := respond_weak hq hweak
  obtain ⟨-, -, spoken, hsteps, -⟩ := plain_respondWeak (r := r) body causal
  unfold noted handle
  rw [hrespond]
  simp only [weak_respondWeak hleader, hsteps, performAll_emit]

/-- A message without a request changes at most who waits. -/
theorem noted_of_request?_eq_none (hq : m.request? = none) :
    ∃ syncWaiters, r.noted m = { r with syncWaiters } := by
  cases m with
  | sync body =>
      simp only [noted, respond, respondSync]
      cases r.isLeader with
      | false => exact ⟨_, rfl⟩
      | true => cases r.values[body.id]? <;> exact ⟨_, rfl⟩
  | accept a => exact ⟨_, rfl⟩
  | acceptAck a => exact ⟨_, rfl⟩
  | commit b => exact ⟨_, rfl⟩
  | batch b => exact ⟨_, rfl⟩
  | _ => simp [ReplicaMessage.request?] at hq

/-- The leader's record of a request that it gives a slot has the request's write. -/
theorem Leads.pendingWrites_lead (h : r.Leads log) (q : Request) :
    (r.lead q).pendingWrites = (r.recordPending q.id q.command).pendingWrites := by
  obtain ⟨w, -, -, hassign⟩ := h.assign_eq q
  rw [Replica.lead, hassign, recordPending_eq r q.id q.command]
  rfl

namespace Attends

theorem pendingWrites_noted (h : base.Attends config log issued m log')
    (hq : m.request? = some q) :
    (base.noted m).pendingWrites = if base.remembers q then
      (base.recordPending q.id q.command).pendingWrites else base.pendingWrites := by
  cases hleader : base.isLeader with
  | true =>
      cases hnew : q.weak || !base.slots.contains q.id with
      | true =>
          have hfirst : q.weak = false → base.slots.contains q.id = false := fun hstrong => by
            simpa [hstrong] using hnew
          rw [(h.leads hleader).noted_eq hq hfirst, (h.leads hleader).pendingWrites_lead]
          simp [remembers, hleader, hnew]
      | false =>
          obtain ⟨hstrong, hknown⟩ : q.weak = false ∧ base.slots.contains q.id = true := by
            simpa using hnew
          rw [noted_known hleader hq hstrong hknown]
          simp [remembers, hleader, hstrong, hknown]
  | false =>
      cases hweak : q.weak with
      | true =>
          rw [noted_weak_of_not_isLeader hleader hq hweak]
          obtain ⟨_, _, hframe⟩ :=
            (base.recordPending q.id q.command).recordWitness_frame q.id q.command false
          by_cases hvariant : base.config.variant = .everyReplica
          · simp [remembers, hleader, hweak, hvariant, hframe]
          · simp [remembers, hleader, hvariant]
      | false =>
          rw [noted_strong_of_not_isLeader hleader hq hweak]
          obtain ⟨_, _, hframe⟩ := base.recordWitness_frame q.id q.command true
          rw [hframe]
          cases base.witnessed.contains q.id <;> simp [remembers, hleader, hweak]

/-- Without a request nothing is newly remembered. -/
theorem pendingWrites_noted_of_none (hq : m.request? = none) :
    (base.noted m).pendingWrites = base.pendingWrites := by
  obtain ⟨_, h⟩ := noted_of_request?_eq_none (r := base) hq
  rw [h]

end Attends

end WitnessReplication.Replica
