import WitnessReplication.Proofs.Network.History

/-!
# Chronicles and their turns

A chronicle is a history with every message that a replica has handled and the replica as it was
then, so that what was sent can still be spoken of when the message is lost or has been handled.
Every history has a chronicle.

`Chronicle.Turn` says what an action does to the messages in flight, one by one: one is added, one
is taken out and lost, or one is taken out and handled by its addressee.
-/

namespace WitnessReplication

/-- A message that is handled, and the replica that handles it as it was before. -/
structure Handling where
  replica : Replica
  message : ReplicaMessage

/-- What the replica does to the world outside it. -/
def Handling.effects (d : Handling) : List Replica.Effect := (d.replica.handle d.message).2

/-- Issues a strong or a weak command. -/
def Client.issue (c : Client) (weak : Bool) (command : Command) : Client × CommandId × List Sent :=
  if weak then c.proposeWeak command else c.propose command

namespace Network

/-- Whether a letter has an addressee in the network. -/
def Letter.isAddressed (n : Network) : Letter → Bool
  | .toReplica id _ => decide (id < n.replicas.length)
  | .toClient id _ => decide (0 < id ∧ id ≤ n.clients.length)

/-- The handling that an action leads to. -/
def handling? (n : Network) : Action → Option Handling
  | .deliver place =>
    match n.pool[place]? with
    | some (.toReplica id m) => n.replicas[id]?.map fun r => ⟨r, m⟩
    | _ => none
  | _ => none

end Network

/-- A history with the messages that replicas have handled. -/
structure Chronicle extends History where
  handled : List Handling

namespace Chronicle

open Network

/-- The chronicle of a network before its first action. -/
def start (n : Network) : Chronicle := ⟨.start n, []⟩

/-- The chronicle after one more action. -/
def act (c : Chronicle) (action : Action) : Chronicle :=
  ⟨c.toHistory.act action, c.handled ++ (c.network.handling? action).toList⟩

/-- The chronicle after some more actions. -/
def run (c : Chronicle) (actions : List Action) : Chronicle := actions.foldl act c

/-- The chronicles that a configuration and its clients can get to. -/
inductive Reachable (config : Config) (bounds : List ReplicaId) : Chronicle → Prop
  | start {n : Network} (h : Network.start config bounds = .ok n) :
      Reachable config bounds (Chronicle.start n)
  | act {c : Chronicle} (action : Action) (hc : Reachable config bounds c) :
      Reachable config bounds (c.act action)

/-- What an action does. -/
inductive Turn (c : Chronicle) : Action → Chronicle → Prop
  /-- There is no client or no message that the action could be about. -/
  | idle {action : Action} : Turn c action c
  /-- A client issues a command. -/
  | issued {action : Action} {place : Nat} {client : Client} (weak : Bool) (command : Command)
      (haction : action = if weak then .proposeWeak place command else .propose place command)
      (hc : c.network.clients[place]? = some client) :
      Turn c action ⟨⟨{ c.network with
          clients := c.network.clients.set place (client.issue weak command).1 }.post none
          (client.issue weak command).2.2, c.log,
        c.issued ++ [⟨(client.issue weak command).2.1, command, weak⟩], c.completions⟩, c.handled⟩
  /-- A message is lost, or there is no one to handle it. -/
  | lost {action : Action} {place : Nat} {letter : Letter}
      (hl : c.network.pool[place]? = some letter)
      (hlost : action = .drop place ∨ letter.isAddressed c.network = false) :
      Turn c action ⟨⟨c.network.remove place, c.log, c.issued, c.completions⟩, c.handled⟩
  /-- A message is repeated. -/
  | repeated {place : Nat} {letter : Letter} (hl : c.network.pool[place]? = some letter) :
      Turn c (.duplicate place)
        ⟨⟨{ c.network with pool := c.network.pool ++ [letter] }, c.log, c.issued, c.completions⟩,
          c.handled⟩
  /-- A client handles a message. -/
  | reacted {place seat : Nat} {client : Client} {m : ClientMessage}
      (hl : c.network.pool[place]? = some (.toClient (seat + 1) m))
      (hc : c.network.clients[seat]? = some client) :
      Turn c (.deliver place) ⟨⟨{ c.network.remove place with
          clients := c.network.clients.set seat (client.handle m).client }.post none
          (client.handle m).sent,
        c.log, c.issued, c.completions ++ (client.handle m).completion.toList⟩, c.handled⟩
  /-- A replica handles a message. -/
  | handled {place : Nat} {id : ReplicaId} {r : Replica} {m : ReplicaMessage}
      (hl : c.network.pool[place]? = some (.toReplica id m))
      (hr : c.network.replicas[id]? = some r) :
      Turn c (.deliver place) ⟨⟨{ c.network.remove place with
          replicas := c.network.replicas.set id (r.step m).1 }.post (some id) (r.step m).2,
        c.log ++ if r.isLeader then r.assigned m else [], c.issued, c.completions⟩,
        c.handled ++ [⟨r, m⟩]⟩

variable {config : Config} {bounds : List ReplicaId} {c : Chronicle} {place : Nat}
variable {letter : Letter} {client : Client}

theorem Reachable.run (hc : Reachable config bounds c) (actions : List Action) :
    Reachable config bounds (c.run actions) := by
  induction actions generalizing c with
  | nil => exact hc
  | cons action actions ih => exact ih (hc.act action)

/-- A reachable chronicle has a reachable history. -/
theorem Reachable.history (hc : Reachable config bounds c) :
    c.toHistory.Reachable config bounds := by
  induction hc with
  | start hn => exact .start hn
  | act action _ ih => exact .act action ih

/-- A reachable history has a reachable chronicle. -/
theorem exists_reachable {h : History} (hh : h.Reachable config bounds) :
    ∃ c : Chronicle, c.Reachable config bounds ∧ c.toHistory = h := by
  induction hh with
  | start hn => exact ⟨_, .start hn, rfl⟩
  | act action _ ih =>
      obtain ⟨c, hc, rfl⟩ := ih
      exact ⟨_, hc.act action, rfl⟩

theorem toHistory_run (c : Chronicle) (actions : List Action) :
    (c.run actions).toHistory = c.toHistory.run actions := by
  induction actions generalizing c with
  | nil => rfl
  | cons action actions ih => exact ih (c.act action)

/-! ### Actions as turns -/

theorem act_issue (c : Chronicle) (weak : Bool) (command : Command)
    (hc : c.network.clients[place]? = some client) :
    c.act (if weak then .proposeWeak place command else .propose place command) =
      ⟨⟨{ c.network with
          clients := c.network.clients.set place (client.issue weak command).1 }.post none
          (client.issue weak command).2.2, c.log,
        c.issued ++ [⟨(client.issue weak command).2.1, command, weak⟩], c.completions⟩,
        c.handled⟩ := by
  cases weak <;> simp [act, History.act, Network.act, perform, issue, requested, assigned,
    handling?, Client.issue, hc]

theorem turn_issue (c : Chronicle) (weak : Bool) (place : Nat) (command : Command) :
    c.Turn (if weak then .proposeWeak place command else .propose place command)
      (c.act (if weak then .proposeWeak place command else .propose place command)) := by
  cases hc : c.network.clients[place]? with
  | none =>
      have hact :
          c.act (if weak then .proposeWeak place command else .propose place command) = c := by
        cases weak <;> simp [act, History.act, Network.act, perform, issue, requested, assigned,
          handling?, hc]
      rw [hact]
      exact .idle
  | some client =>
      rw [c.act_issue weak command hc]
      exact .issued weak command rfl hc

/-- A delivered letter that nobody gets is lost. -/
theorem turn_nobody (c : Chronicle) (hl : c.network.pool[place]? = some letter)
    (hnobody : letter.isAddressed c.network = false) :
    c.Turn (.deliver place) (c.act (.deliver place)) := by
  have hact : c.act (.deliver place) =
      ⟨⟨c.network.remove place, c.log, c.issued, c.completions⟩, c.handled⟩ := by
    cases letter with
    | toReplica id m =>
        have hr : c.network.replicas[id]? = none := by simpa [Letter.isAddressed] using hnobody
        simp [act, History.act, Network.act, perform, receive, remove, requested, assigned, taken,
          handling?, hl, hr]
    | toClient id m =>
        have hreceive : (c.network.remove place).receive (.toClient id m) =
            (c.network.remove place, none) := by
          by_cases hid : id = 0
          · simp [receive, hid]
          · have hc : c.network.clients[id - 1]? = none := by
              have hrange : ¬(0 < id ∧ id ≤ c.network.clients.length) :=
                of_decide_eq_false hnobody
              rw [List.getElem?_eq_none_iff]
              lia
            simp [receive, remove, hid, hc]
        simp [act, History.act, Network.act, perform, requested, assigned, taken, handling?, hl,
          hreceive]
  rw [hact]
  exact .lost hl (.inr hnobody)

theorem turn_deliver (c : Chronicle) (place : Nat) :
    c.Turn (.deliver place) (c.act (.deliver place)) := by
  cases hl : c.network.pool[place]? with
  | none =>
      have hact : c.act (.deliver place) = c := by
        simp [act, History.act, Network.act, perform, requested, assigned, handling?, hl]
      rw [hact]
      exact .idle
  | some letter =>
      cases haddressed : letter.isAddressed c.network with
      | false => exact c.turn_nobody hl haddressed
      | true =>
          cases letter with
          | toReplica id m =>
              have hlt : id < c.network.replicas.length := of_decide_eq_true haddressed
              have hr := List.getElem?_eq_getElem hlt
              have hact : c.act (.deliver place) =
                  ⟨⟨({ c.network.remove place with
                      replicas := c.network.replicas.set id
                        (c.network.replicas[id].step m).1 }).post (some id)
                      (c.network.replicas[id].step m).2,
                    c.log ++ if c.network.replicas[id].isLeader then
                      c.network.replicas[id].assigned m else [], c.issued, c.completions⟩,
                    c.handled ++ [⟨c.network.replicas[id], m⟩]⟩ := by
                simp [act, History.act, Network.act, perform, receive, remove, requested, assigned,
                  taken, handling?, hl, hr]
              rw [hact]
              exact .handled hl hr
          | toClient id m =>
              obtain ⟨hpos, hle⟩ : 0 < id ∧ id ≤ c.network.clients.length :=
                of_decide_eq_true haddressed
              obtain ⟨seat, rfl⟩ := Nat.exists_eq_add_of_lt hpos
              rw [Nat.zero_add] at hl hle
              have hc := List.getElem?_eq_getElem (Nat.lt_of_succ_le hle)
              have hact : c.act (.deliver place) =
                  ⟨⟨({ c.network.remove place with
                      clients := c.network.clients.set seat
                        (c.network.clients[seat].handle m).client }).post none
                      (c.network.clients[seat].handle m).sent,
                    c.log, c.issued,
                    c.completions ++ (c.network.clients[seat].handle m).completion.toList⟩,
                    c.handled⟩ := by
                simp [act, History.act, Network.act, perform, receive, remove, requested, assigned,
                  taken, handling?, hl, hc]
              rw [hact]
              exact .reacted hl hc

/-- Every action is a turn. -/
theorem turn_act (c : Chronicle) (action : Action) : c.Turn action (c.act action) := by
  cases action with
  | propose place command => exact c.turn_issue false place command
  | proposeWeak place command => exact c.turn_issue true place command
  | deliver place => exact c.turn_deliver place
  | drop place =>
      cases hl : c.network.pool[place]? with
      | none =>
          have hact : c.act (.drop place) = c := by
            have hle : c.network.pool.length ≤ place := List.getElem?_eq_none_iff.1 hl
            simp [act, History.act, Network.act, perform, remove, requested, assigned, handling?,
              List.eraseIdx_of_length_le hle]
          rw [hact]
          exact .idle
      | some letter =>
          have hact : c.act (.drop place) =
              ⟨⟨c.network.remove place, c.log, c.issued, c.completions⟩, c.handled⟩ := by
            simp [act, History.act, Network.act, perform, requested, assigned, handling?]
          rw [hact]
          exact .lost hl (.inl rfl)
  | duplicate place =>
      cases hl : c.network.pool[place]? with
      | none =>
          have hact : c.act (.duplicate place) = c := by
            simp [act, History.act, Network.act, perform, requested, assigned, handling?, hl]
          rw [hact]
          exact .idle
      | some letter =>
          have hact : c.act (.duplicate place) =
              ⟨⟨{ c.network with pool := c.network.pool ++ [letter] }, c.log, c.issued,
                c.completions⟩, c.handled⟩ := by
            simp [act, History.act, Network.act, perform, requested, assigned, handling?, hl]
          rw [hact]
          exact .repeated hl

end Chronicle

end WitnessReplication
