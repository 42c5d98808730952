import Mathlib.Logic.Relation
import WitnessReplication.Proofs.Network.Soundness
import WitnessReplication.Proofs.Replica.Keeping

/-!
# Steps

A turn is a sequence of steps: a client issues a command, messages in flight are lost or repeated, a
client reacts to a message, or a replica handles one (`Chronicle.Step`). A delivery is one of the
latter two, after which the message is lost. What each step keeps, every chronicle has
(`Chronicle.Reachable.induct`).

## Implementation notes

Most facts about replicas do not depend on what clients do. For those a step is either quiet or
the handling of a message (`Chronicle.Step.quiet_or_handles`).
-/

namespace WitnessReplication

/-- A message that comes from a client. -/
def ReplicaMessage.FromClient : ReplicaMessage → Prop
  | .propose _ => True
  | .sync _ => True
  | .weakPropose _ => True
  | .causalPropose _ => True
  | _ => False

namespace Chronicle

open Network

/-- One thing that happens. -/
inductive Step (c : Chronicle) : Chronicle → Prop
  /-- A client issues a command. -/
  | issued {place : Nat} {client : Client} (weak : Bool) (command : Command)
      (hc : c.network.clients[place]? = some client) :
      Step c ⟨⟨{ c.network with
          clients := c.network.clients.set place (client.issue weak command).1 }.post none
          (client.issue weak command).2.2, c.log,
        c.issued ++ [⟨(client.issue weak command).2.1, command, weak⟩], c.completions⟩, c.handled⟩
  /-- Messages in flight are lost or repeated. -/
  | thinned {pool : List Letter} (hpool : pool ⊆ c.network.pool) :
      Step c ⟨⟨{ c.network with pool }, c.log, c.issued, c.completions⟩, c.handled⟩
  /-- A client handles a message in flight. -/
  | reacted {place : Nat} {client : Client} {m : ClientMessage}
      (hc : c.network.clients[place]? = some client)
      (hm : .toClient (place + 1) m ∈ c.network.pool) :
      Step c ⟨⟨{ c.network with
          clients := c.network.clients.set place (client.handle m).client }.post none
          (client.handle m).sent,
        c.log, c.issued, c.completions ++ (client.handle m).completion.toList⟩, c.handled⟩
  /-- A replica handles a message in flight. -/
  | handled {id : ReplicaId} {r : Replica} {m : ReplicaMessage}
      (hr : c.network.replicas[id]? = some r) (hm : .toReplica id m ∈ c.network.pool) :
      Step c ⟨⟨{ c.network with replicas := c.network.replicas.set id (r.step m).1 }.post (some id)
          (r.step m).2, c.log ++ if r.isLeader then r.assigned m else [], c.issued,
        c.completions⟩, c.handled ++ [⟨r, m⟩]⟩

variable {config : Config} {bounds : List ReplicaId} {c c' : Chronicle} {action : Action}
variable {place : Nat} {letter : Letter} {client : Client}

/-! ### Actions as steps -/

/-- A turn is a sequence of steps. -/
theorem Turn.steps (h : c.Turn action c') : Relation.ReflTransGen Step c c' := by
  have hkept : ∀ {place : Nat} {sent : List Letter},
      c.network.pool.eraseIdx place ++ sent ⊆ c.network.pool ++ sent := fun {_ _} =>
    List.append_subset.2 ⟨fun _ hl => List.mem_append_left _ (List.eraseIdx_subset hl),
      List.subset_append_right _ _⟩
  cases h with
  | idle => exact .refl
  | issued weak command haction hc => exact .single (.issued weak command hc)
  | lost hl hlost => exact .single (.thinned List.eraseIdx_subset)
  | repeated hl =>
      refine .single (.thinned (List.append_subset.2 ⟨List.Subset.refl _, fun _ hmem => ?_⟩))
      exact List.mem_singleton.1 hmem ▸ List.mem_of_getElem? hl
  | reacted hl hc =>
      exact .tail (.single (.reacted hc (List.mem_of_getElem? hl))) (.thinned hkept)
  | handled hl hr =>
      exact .tail (.single (.handled hr (List.mem_of_getElem? hl))) (.thinned hkept)

/-- Every action is a sequence of steps. -/
theorem steps_act (c : Chronicle) (action : Action) :
    Relation.ReflTransGen Step c (c.act action) := (c.turn_act action).steps

/-- Actions one after another are a sequence of steps. -/
theorem steps_run (c : Chronicle) (actions : List Action) :
    Relation.ReflTransGen Step c (c.run actions) := by
  induction actions generalizing c with
  | nil => exact .refl
  | cons action actions ih => exact (c.steps_act action).trans (ih (c.act action))

/-! ### What every step keeps -/

/-- Every step keeps a history sound. -/
theorem Step.sound (h : c.Step c') (hs : c.Sound config) : c'.Sound config := by
  cases h with
  | issued weak command hc => exact (Turn.issued weak command rfl hc).sound hs
  | thinned hpool => exact hs.thin hpool
  | reacted hc hm => exact hs.react hc (hs.pool _ hm)
  | handled hr hm => exact hs.handle hr (hs.pool _ hm)

/-- What every step from a sound chronicle keeps, a sequence of steps keeps. -/
theorem steps_keep {P : Chronicle → Prop}
    (hstep : ∀ c c' : Chronicle, c.Sound config → c.Step c' → P c → P c')
    (h : Relation.ReflTransGen Step c c') (hs : c.Sound config) (hp : P c) :
    c'.Sound config ∧ P c' := by
  induction h with
  | refl => exact ⟨hs, hp⟩
  | tail _ hlast ih => exact ⟨hlast.sound ih.1, hstep _ _ ih.1 hlast ih.2⟩

/-- What every step from a sound chronicle keeps, every reachable chronicle has. -/
theorem Reachable.induct {P : Chronicle → Prop}
    (hstart : ∀ n, Network.start config bounds = .ok n → P (Chronicle.start n))
    (hstep : ∀ c c' : Chronicle, c.Sound config → c.Step c' → P c → P c')
    (hc : c.Reachable config bounds) : P c := by
  have hboth : c.Sound config ∧ P c := by
    induction hc with
    | start hn => exact ⟨History.sound_start hn, hstart _ hn⟩
    | @act c action _ ih => exact steps_keep hstep (c.steps_act action) ih.1 ih.2
  exact hboth.2

/-- Nothing but clients and messages in flight has changed. -/
structure Quiet (c c' : Chronicle) : Prop where
  replicas_eq : c'.network.replicas = c.network.replicas
  log_eq : c'.log = c.log
  handled_eq : c'.handled = c.handled
  issued_subset : c.issued ⊆ c'.issued
  pool : ∀ letter ∈ c'.network.pool, letter ∈ c.network.pool ∨
    ∃ id m, letter = .toReplica id m ∧ m.FromClient

/-- Replica `r` has handled a message in flight. -/
structure Handles (c : Chronicle) (id : ReplicaId) (r : Replica) (m : ReplicaMessage)
    (c' : Chronicle) : Prop where
  replica : c.network.replicas[id]? = some r
  letter : .toReplica id m ∈ c.network.pool
  replicas_eq : c'.network.replicas = c.network.replicas.set id (r.handle m).1
  log_eq : c'.log = c.log ++ if r.isLeader then r.assigned m else []
  handled_eq : c'.handled = c.handled ++ [⟨r, m⟩]
  issued_eq : c'.issued = c.issued
  pool : ∀ letter ∈ c'.network.pool, letter ∈ c.network.pool ∨
    ∃ e ∈ (r.handle m).2, ∃ s, e.sent r.config.leader = some s ∧
      ∃ n : Network, letter ∈ n.letters (some id) s

/-- What a client sends when it issues a command comes from a client. -/
theorem fromClient_issue {client : Client} {weak : Bool} {command : Command} {n : Network} :
    ∀ letter ∈ (client.issue weak command).2.2.flatMap (n.letters none),
      ∃ id m, letter = .toReplica id m ∧ m.FromClient := by
  intro letter hmem
  obtain ⟨s, hs, hmem⟩ := List.mem_flatMap.1 hmem
  have hletter : ∀ m, m.FromClient → letter ∈ n.letters none (.toAll m) →
      ∃ id m, letter = .toReplica id m ∧ m.FromClient := by
    intro m hm hmem
    obtain ⟨id, -, rfl⟩ := List.mem_map.1 hmem
    exact ⟨id, m, rfl, hm⟩
  unfold Client.issue Client.propose Client.proposeWeak at hs
  split at hs
  · dsimp only at hs
    split at hs
    · obtain rfl := List.mem_singleton.1 hs
      obtain rfl := List.mem_singleton.1 hmem
      exact ⟨_, _, rfl, trivial⟩
    · obtain rfl := List.mem_singleton.1 hs
      exact hletter (.causalPropose _) trivial hmem
  · obtain rfl := List.mem_singleton.1 hs
    exact hletter (.propose _) trivial hmem

/-- In the step in which a replica handles a message, it handles that. -/
theorem handles_handled {id : ReplicaId} {r : Replica} {m : ReplicaMessage}
    (hr : c.network.replicas[id]? = some r) (hm : .toReplica id m ∈ c.network.pool) :
    c.Handles id r m ⟨⟨{ c.network with replicas := c.network.replicas.set id (r.step m).1 }.post
        (some id) (r.step m).2, c.log ++ if r.isLeader then r.assigned m else [], c.issued,
      c.completions⟩, c.handled ++ [⟨r, m⟩]⟩ := by
  refine ⟨hr, hm, rfl, rfl, rfl, rfl, fun letter hmem => ?_⟩
  refine (List.mem_append.1 hmem).imp_right fun hmem => ?_
  obtain ⟨s, hsent, hmem⟩ := List.mem_flatMap.1 hmem
  obtain ⟨e, he, hes⟩ := List.mem_filterMap.1 hsent
  exact ⟨e, he, s, hes, _, hmem⟩

/-- A step leaves replicas and log as they are, or a replica handles a message. -/
theorem Step.quiet_or_handles (h : c.Step c') (hs : c.Sound config) :
    c.Quiet c' ∨ ∃ id r m, c.Handles id r m c' := by
  cases h with
  | issued weak command hc =>
      refine .inl ⟨rfl, rfl, rfl, List.subset_append_left _ _, fun letter hmem => ?_⟩
      exact (List.mem_append.1 hmem).imp_right (fromClient_issue letter)
  | thinned hpool =>
      exact .inl ⟨rfl, rfl, rfl, List.Subset.refl _, fun letter hmem => .inl (hpool hmem)⟩
  | reacted hc hm =>
      refine .inl ⟨rfl, rfl, rfl, List.Subset.refl _, fun letter hmem => ?_⟩
      refine (List.mem_append.1 hmem).imp_right fun hmem => ?_
      obtain ⟨s, hsent, hmem⟩ := List.mem_flatMap.1 hmem
      obtain ⟨body, rfl⟩ := ((hs.clients.sound hc).handle (hs.pool _ hm)).sent s hsent
      exact ⟨_, _, List.mem_singleton.1 hmem, trivial⟩
  | handled hr hm => exact .inr ⟨_, _, _, handles_handled hr hm⟩

namespace Handles

variable {id : ReplicaId} {r : Replica} {m : ReplicaMessage}

/-- The replica that handles the message attends to its log. -/
theorem attends (h : c.Handles id r m c') (hs : c.Sound config) :
    r.Attends config c.log c.issued m c'.log where
  config_eq := hs.replicas.config_eq h.replica
  follows := hs.replicas.follows h.replica
  leads hleader := by
    have hid := hs.replicas.isLeader_eq h.replica
    rw [hleader] at hid
    exact hs.replicas.leads ((of_decide_eq_true hid.symm) ▸ h.replica)
  backed := by
    rw [hs.replicas.isLeader_eq h.replica]
    exact hs.pool _ h.letter
  log_eq := h.log_eq

theorem id_eq (h : c.Handles id r m c') (hs : c.Sound config) : r.id = id :=
  hs.replicas.id_eq h.replica

/-- The replica after the message. -/
theorem replica' (h : c.Handles id r m c') : c'.network.replicas[id]? = some (r.handle m).1 := by
  have hlt := (List.getElem?_eq_some_iff.1 h.replica).1
  rw [h.replicas_eq, List.getElem?_set_self hlt]

/-- Any replica after the message is that one, or another and as it was. -/
theorem replica_eq {i : ReplicaId} {r' : Replica} (h : c.Handles id r m c')
    (hr' : c'.network.replicas[i]? = some r') :
    (i = id ∧ r' = (r.handle m).1) ∨ (i ≠ id ∧ c.network.replicas[i]? = some r') := by
  rw [h.replicas_eq] at hr'
  exact of_getElem?_set hr'

/-- A message in flight to a client was in flight before, or the replica has sent it. -/
theorem tell_of_letter (h : c.Handles id r m c') {client : ClientId} {message : ClientMessage}
    (hmem : .toClient client message ∈ c'.network.pool) :
    .toClient client message ∈ c.network.pool ∨ .tell client message ∈ (r.handle m).2 := by
  rcases h.pool _ hmem with hold | ⟨e, he, s, hes, n, hletter⟩
  · exact .inl hold
  · right
    cases s with
    | toAll body => simp [letters] at hletter
    | toReplica other body => simp [letters] at hletter
    | toClient other body =>
        obtain ⟨rfl, rfl⟩ := Letter.toClient.inj (List.mem_singleton.1 hletter)
        cases e with
        | tell other body =>
            obtain ⟨rfl, rfl⟩ := Sent.toClient.inj (Option.some.inj hes)
            exact he
        | _ => simp [Replica.Effect.sent] at hes

/-- A message in flight to a replica was in flight before, or the replica has broadcast it, or it
is an accept or an acknowledgement that the replica has sent. -/
theorem effect_of_letter (h : c.Handles id r m c') {i : ReplicaId} {message : ReplicaMessage}
    (hmem : .toReplica i message ∈ c'.network.pool) :
    .toReplica i message ∈ c.network.pool ∨ .broadcast message ∈ (r.handle m).2 ∨
      (∃ a, message = .accept a ∧ .accept a ∈ (r.handle m).2) ∨
      ∃ a, message = .acceptAck a ∧ .acceptAck a ∈ (r.handle m).2 := by
  rcases h.pool _ hmem with hold | ⟨e, he, s, hes, n, hletter⟩
  · exact .inl hold
  · right
    cases s with
    | toAll body =>
        obtain ⟨_, -, hbody⟩ := List.mem_map.1 hletter
        obtain ⟨-, rfl⟩ := Letter.toReplica.inj hbody
        cases e with
        | broadcast body =>
            obtain rfl := Sent.toAll.inj (Option.some.inj hes)
            exact .inl he
        | accept a =>
            obtain rfl := Sent.toAll.inj (Option.some.inj hes)
            exact .inr (.inl ⟨a, rfl, he⟩)
        | _ => simp [Replica.Effect.sent] at hes
    | toReplica other body =>
        obtain ⟨rfl, rfl⟩ := Letter.toReplica.inj (List.mem_singleton.1 hletter)
        cases e with
        | acceptAck a =>
            obtain ⟨-, rfl⟩ := Sent.toReplica.inj (Option.some.inj hes)
            exact .inr (.inr ⟨a, rfl, he⟩)
        | _ => simp [Replica.Effect.sent] at hes
    | toClient other body => simp [letters] at hletter

end Handles

/-- The chronicle of two replicas and two clients before the first action. -/
def pair : Chronicle := ⟨History.pair, []⟩

theorem reachable_pair : pair.Reachable History.pairConfig [0, 0] := .start rfl

end Chronicle

end WitnessReplication
