import WitnessReplication.Proofs.Network.Issuing
import WitnessReplication.Proofs.Network.Remembering
import WitnessReplication.Proofs.Replica.Answering

/-!
# Weak completions where every replica takes weak commands

Where every replica takes weak commands, a client sends them as causal ones, and each replica
answers them when they arrive. A weak command completes with the answer of the replica that its
client listens to, so that this replica has handled the command, and has answered it with what it
knew then.
-/

namespace WitnessReplication

/-- A weak command comes as a causal one where every replica takes weak commands, and only
there. -/
def ReplicaMessage.Suits (variant : Variant) : ReplicaMessage → Prop
  | .weakPropose _ => variant = .leaderOnly
  | .causalPropose _ => variant = .everyReplica
  | _ => True

namespace Chronicle

open Network Replica

/-- Each weak command in flight comes as its variant wants. -/
def Suited (config : Config) (c : Chronicle) : Prop :=
  ∀ id m, .toReplica id m ∈ c.network.pool → m.Suits config.variant

/-- A replica has handled a weak command and answered it with a value. -/
def AnsweredAt (c : Chronicle) (i : ReplicaId) (id : CommandId) (value : Value) : Prop :=
  ∃ q : Request, q.id = id ∧ q.weak = true ∧
    c.Reached i q fun r => value = r.speculate q.id q.command false

/-- Weak answers are given when a command arrives, as causal ones, and a client completes a weak
command with an answer of the replica that it listens to. -/
structure Answered (c : Chronicle) : Prop where
  eager : ∀ (i : ReplicaId) r, c.network.replicas[i]? = some r → r.Eager
  causal : ∀ id a, .toClient id (.weakReply a) ∉ c.network.pool
  replies : ∀ id a, .toClient id (.causalReply a) ∈ c.network.pool →
    c.AnsweredAt a.replica a.id a.value
  completions : ∀ done ∈ c.completions, done.path = .weak → ∃ (place : Nat) (client : Client),
    c.network.clients[place]? = some client ∧ done.id.client = place + 1 ∧
      c.AnsweredAt client.bound done.id done.value

variable {config : Config} {bounds : List ReplicaId} {c c' : Chronicle} {id i : ReplicaId}
variable {r : Replica} {m : ReplicaMessage} {q : Request} {state : Replica → Prop}

/-! ### How weak commands come -/

/-- A client sends its commands as its variant wants. -/
theorem suits_issue {client : Client} (weak : Bool) (command : Command) {n : Network}
    (hmem : .toReplica id m ∈ (client.issue weak command).2.2.flatMap (n.letters none)) :
    m.Suits client.config.variant := by
  obtain ⟨s, hs, hmem⟩ := List.mem_flatMap.1 hmem
  have hall : ∀ m', .toReplica id m ∈ n.letters none (.toAll m') → m = m' := by
    intro m' hmem
    obtain ⟨_, -, heq⟩ := List.mem_map.1 hmem
    exact (Letter.toReplica.inj heq).2.symm
  cases weak with
  | false =>
      obtain rfl := List.mem_singleton.1 hs
      rw [hall _ hmem]
      trivial
  | true =>
      cases hvariant : client.config.variant with
      | leaderOnly =>
          simp only [Client.issue, Client.proposeWeak, hvariant, if_true] at hs
          obtain rfl := List.mem_singleton.1 hs
          obtain ⟨-, rfl⟩ := Letter.toReplica.inj (List.mem_singleton.1 hmem)
          rfl
      | everyReplica =>
          simp only [Client.issue, Client.proposeWeak, hvariant, if_true] at hs
          obtain rfl := List.mem_singleton.1 hs
          rw [hall _ hmem]
          rfl

theorem Handles.suited (h : c.Handles id r m c') (hs : c.Sound config) (hsuited : c.Suited config) :
    c'.Suited config := by
  intro i m' hmem
  rcases h.effect_of_letter hmem with hold | he | ⟨a, rfl, -⟩ | ⟨a, rfl, -⟩
  · exact hsuited i m' hold
  · obtain ⟨body, rfl⟩ := (h.attends hs).serving.backed _ he _ fun _ => Nat.le_refl _
    trivial
  · trivial
  · trivial

theorem Step.suited (h : c.Step c') (hs : c.Sound config) (hsuited : c.Suited config) :
    c'.Suited config := by
  cases h with
  | @issued seat client weak command hc =>
      intro i m hmem
      rcases List.mem_append.1 hmem with hmem | hmem
      · exact hsuited i m hmem
      · rw [← (hs.clients.sound hc).config_eq]
        exact suits_issue weak command hmem
  | thinned hpool => exact fun i m hmem => hsuited i m (hpool hmem)
  | reacted hc hm =>
      intro i m hmem
      rcases List.mem_append.1 hmem with hmem | hmem
      · exact hsuited i m hmem
      · obtain ⟨s, hsent, hmem⟩ := List.mem_flatMap.1 hmem
        obtain ⟨body, rfl⟩ := ((hs.clients.sound hc).handle (hs.pool _ hm)).sent s hsent
        obtain ⟨-, rfl⟩ := Letter.toReplica.inj (List.mem_singleton.1 hmem)
        trivial
  | handled hr hm => exact (handles_handled hr hm).suited hs hsuited

theorem Reachable.suited (hc : c.Reachable config bounds) : c.Suited config := by
  refine hc.induct (fun n hn i m hmem => ?_) fun c c' hs hstep hsuited => hstep.suited hs hsuited
  obtain rfl := Network.start_eq hn
  simp [Chronicle.start, History.start] at hmem

/-! ### How weak commands complete -/

theorem Step.reached (h : c.Step c') (hs : c.Sound config) (hreached : c.Reached i q state) :
    c'.Reached i q state :=
  hreached.imp fun _ hd => hd.imp_left fun hmem => h.handled_subset hs hmem

theorem Step.answeredAt {cid : CommandId} {value : Value} (h : c.Step c') (hs : c.Sound config)
    (ha : c.AnsweredAt i cid value) : c'.AnsweredAt i cid value :=
  ha.imp fun _ hq => hq.imp_right fun hrest => hrest.imp_right fun hreached => h.reached hs hreached

/-- A replica that handles a message answers the weak command that it brings with a causal
reply. -/
theorem Handles.answers (h : c.Handles id r m c') (hs : c.Sound config)
    (hvariant : config.variant = .everyReplica) (hsuited : c.Suited config) (heager : r.Eager) :
    (r.handle m).1.Eager ∧ ∀ e ∈ (r.handle m).2, e.IsWeakAnswer →
      ∃ q value, c'.AnsweredAt r.id q value ∧ e = r.weakReply q value true := by
  obtain ⟨hstill, hanswers⟩ := (h.attends hs).eager hvariant heager
  refine ⟨hstill, fun e he hanswer => ?_⟩
  obtain ⟨q, hm, hweak, causal, rfl, hcausal⟩ := hanswers e he hanswer
  refine ⟨q.id, _, ⟨q, rfl, hweak, ⟨r, m⟩, ?_, rfl, hm, rfl⟩, ?_⟩
  · rw [h.handled_eq]
    exact List.mem_append_right _ (List.mem_singleton.2 rfl)
  · cases causal with
    | true => rfl
    | false =>
        obtain ⟨body, rfl⟩ := hcausal rfl
        have hleaderOnly := hsuited id _ h.letter
        rw [ReplicaMessage.Suits, hvariant] at hleaderOnly
        simp at hleaderOnly

theorem Step.answered (h : c.Step c') (hs : c.Sound config)
    (hvariant : config.variant = .everyReplica) (hsuited : c.Suited config) (hown : c.AwaitOwn)
    (ha : c.Answered) : c'.Answered := by
  have hstep := h
  cases h with
  | @issued seat client weak command hc =>
      have hnone : ∀ id message, .toClient id message ∉
          (client.issue weak command).2.2.flatMap (letters { c.network with
            clients := c.network.clients.set seat (client.issue weak command).1 } none) := by
        intro id message hmem
        obtain ⟨_, _, heq, -⟩ := fromClient_issue _ hmem
        simp at heq
      refine ⟨ha.eager, fun id a hmem => ?_, fun id a hmem => ?_, fun done hdone hpath => ?_⟩
      · exact (List.mem_append.1 hmem).elim (ha.causal id a) (hnone id _)
      · refine hstep.answeredAt hs (ha.replies id a ?_)
        exact (List.mem_append.1 hmem).resolve_right (hnone id _)
      · obtain ⟨place, other, hother, hid, hanswered⟩ := ha.completions done hdone hpath
        by_cases hsame : seat = place
        · subst hsame
          obtain rfl : client = other := Option.some.inj (hc.symm.trans hother)
          refine ⟨seat, _, List.getElem?_set_self (List.getElem?_eq_some_iff.1 hc).1, hid, ?_⟩
          rw [Client.bound_issue]
          exact hanswered
        · exact ⟨place, other, (List.getElem?_set_ne hsame).trans hother, hid, hanswered⟩
  | thinned hpool =>
      exact ⟨ha.eager, fun id a hmem => ha.causal id a (hpool hmem),
        fun id a hmem => ha.replies id a (hpool hmem), ha.completions⟩
  | @reacted seat client m hc hm =>
      have hnone : ∀ id message, .toClient id message ∉
          (client.handle m).sent.flatMap (letters { c.network with
            clients := c.network.clients.set seat (client.handle m).client } none) := by
        intro id message hmem
        obtain ⟨s, hsent, hmem⟩ := List.mem_flatMap.1 hmem
        obtain ⟨body, rfl⟩ := ((hs.clients.sound hc).handle (hs.pool _ hm)).sent s hsent
        simp [letters] at hmem
      have hseat := List.getElem?_set_self (a := (client.handle m).client)
        (List.getElem?_eq_some_iff.1 hc).1
      refine ⟨ha.eager, fun id a hmem => ?_, fun id a hmem => ?_, fun done hdone hpath => ?_⟩
      · exact (List.mem_append.1 hmem).elim (ha.causal id a) (hnone id _)
      · exact ha.replies id a ((List.mem_append.1 hmem).resolve_right (hnone id _))
      · rcases List.mem_append.1 hdone with hdone | hdone
        · obtain ⟨place, other, hother, hid, hanswered⟩ := ha.completions done hdone hpath
          by_cases hsame : seat = place
          · subst hsame
            obtain rfl : client = other := Option.some.inj (hc.symm.trans hother)
            refine ⟨seat, _, hseat, hid, ?_⟩
            rw [Client.bound_handle]
            exact hanswered
          · exact ⟨place, other, (List.getElem?_set_ne hsame).trans hother, hid, hanswered⟩
        · obtain ⟨a, rfl, hmem, rfl | ⟨rfl, hbound⟩⟩ :=
            Client.completion_weak (Option.mem_toList.1 hdone) hpath
          · exact absurd hm (ha.causal _ a)
          · refine ⟨seat, _, hseat, hown seat client hc a.id (.inr hmem), ?_⟩
            rw [Client.bound_handle, ← hbound]
            exact ha.replies _ a hm
  | @handled id r m hr hm =>
      have hhandles := handles_handled hr hm
      obtain ⟨hstill, hanswers⟩ := hhandles.answers hs hvariant hsuited (ha.eager id r hr)
      refine ⟨fun i r' hr' => ?_, fun id a hmem => ?_, fun id a hmem => ?_,
        fun done hdone hpath => ?_⟩
      · rcases hhandles.replica_eq hr' with ⟨-, rfl⟩ | ⟨-, hr'⟩
        · exact hstill
        · exact ha.eager i r' hr'
      · rcases hhandles.tell_of_letter hmem with hold | he
        · exact ha.causal id a hold
        · obtain ⟨_, _, -, heq⟩ := hanswers _ he trivial
          simp [weakReply] at heq
      · rcases hhandles.tell_of_letter hmem with hold | he
        · exact hstep.answeredAt hs (ha.replies id a hold)
        · obtain ⟨cid, value, hanswered, heq⟩ := hanswers _ he trivial
          obtain ⟨-, rfl⟩ : id = cid.client ∧ a = ⟨r.id, cid, value⟩ := by
            simpa [weakReply] using heq
          exact hanswered
      · obtain ⟨place, client, hclient, hid, hanswered⟩ := ha.completions done hdone hpath
        exact ⟨place, client, hclient, hid, hstep.answeredAt hs hanswered⟩

theorem Reachable.answered (hc : c.Reachable config bounds)
    (hvariant : config.variant = .everyReplica) : c.Answered := by
  have hboth : c.Suited config ∧ c.AwaitOwn ∧ c.Answered := by
    refine hc.induct (P := fun c => c.Suited config ∧ c.AwaitOwn ∧ c.Answered) (fun n hn => ?_)
      fun c c' hs hstep hp => ?_
    · refine ⟨(Reachable.start hn).suited, (Reachable.start hn).awaitOwn, ?_⟩
      refine ⟨fun i r hr => ?_, fun id a hmem => ?_, fun id a hmem => ?_, fun done hdone => ?_⟩
      · rw [replicas_start hn hr]
        exact eager_initial i config
      · obtain rfl := Network.start_eq hn
        simp [Chronicle.start, History.start] at hmem
      · obtain rfl := Network.start_eq hn
        simp [Chronicle.start, History.start] at hmem
      · simp [Chronicle.start, History.start] at hdone
    · obtain ⟨hsuited, hown, ha⟩ := hp
      exact ⟨hstep.suited hs hsuited, hstep.awaitOwn hs hown,
        hstep.answered hs hvariant hsuited hown ha⟩
  exact hboth.2.2

end Chronicle

end WitnessReplication
