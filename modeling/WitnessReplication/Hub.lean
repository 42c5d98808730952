import WitnessReplication.Message

/-!
# A message hub

A hub passes messages between replicas and clients of one process. Connecting an endpoint hands out
a new inbox, to which the hub sends from then on; what is sent to an endpoint that is not connected
is dropped. The inboxes of an endpoint are numbered in the order in which they are handed out. One
that has been replaced by the next, or whose endpoint has been disconnected, keeps what it holds
until that is taken out of it, but gets nothing more. An inbox can be thrown away without the hub
knowing.

Replicas and clients are connected separately, so their numbers may coincide.
-/

namespace WitnessReplication

namespace Hub

/-- A replica or a client, by number. -/
inductive Endpoint where
  | replica (id : ReplicaId)
  | client (id : ClientId)
  deriving DecidableEq, Repr

/-- The text of an endpoint. -/
def Endpoint.describe : Endpoint → String
  | .replica id => Text.Record.wrapped "Replica" (toString id)
  | .client id => Text.Record.wrapped "Client" (toString id)

/-- The inboxes that an endpoint has been given, in order, without what has been thrown away, and
whether the hub sends to the last of them. -/
structure Mailbox (α : Type) where
  connected : Bool
  inboxes : List (Option (List α))
  deriving DecidableEq, Repr

namespace Mailbox

variable {α : Type}

/-- The mailbox of an endpoint that has not been connected yet. -/
def unused : Mailbox α := ⟨false, []⟩

/-- The number of the last inbox. -/
def last (b : Mailbox α) : Nat := b.inboxes.length - 1

/-- The messages in an inbox, if it is there. -/
def inbox? (b : Mailbox α) (number : Nat) : Option (List α) := b.inboxes[number]?.join

/-- Hands out a new inbox. -/
def connect (b : Mailbox α) : Mailbox α := ⟨true, b.inboxes ++ [some []]⟩

/-- Sends nothing more to the last inbox. -/
def disconnect (b : Mailbox α) : Mailbox α := { b with connected := false }

/-- Throws an inbox away. -/
def discard (b : Mailbox α) (number : Nat) : Mailbox α :=
  { b with inboxes := b.inboxes.set number none }

/-- Takes all messages out of an inbox. -/
def empty (b : Mailbox α) (number : Nat) : Mailbox α :=
  { b with inboxes := b.inboxes.modify number fun held => held.map fun _ => [] }

/-- Adds a message to the last inbox of a connected endpoint. -/
def post (b : Mailbox α) (message : α) : Mailbox α :=
  if b.connected then
    { b with inboxes := b.inboxes.modify b.last fun held => held.map (· ++ [message]) }
  else b

end Mailbox

/-- The mailboxes of one kind of endpoints. -/
abbrev Mailboxes (α : Type) := Std.ExtTreeMap Nat (Mailbox α)

namespace Mailboxes

variable {α : Type}

/-- The mailbox of an endpoint. -/
def mailbox (m : Mailboxes α) (id : Nat) : Mailbox α := m[id]?.getD .unused

/-- Hands out a new inbox to an endpoint. -/
def connect (m : Mailboxes α) (id : Nat) : Mailboxes α := m.insert id (m.mailbox id).connect

/-- Changes the mailbox of an endpoint that has been connected. -/
def change (m : Mailboxes α) (id : Nat) (f : Mailbox α → Mailbox α) : Mailboxes α :=
  m.alter id fun b => b.map f

/-- Sends nothing more to an endpoint. -/
def disconnect (m : Mailboxes α) (id : Nat) : Mailboxes α := m.change id Mailbox.disconnect

/-- Throws an inbox of an endpoint away. -/
def discard (m : Mailboxes α) (id number : Nat) : Mailboxes α :=
  m.change id fun b => b.discard number

/-- Sends a message to an endpoint. -/
def post (m : Mailboxes α) (id : Nat) (message : α) : Mailboxes α :=
  m.change id fun b => b.post message

/-- Takes all messages out of an inbox of an endpoint, if it is there. -/
def receive (m : Mailboxes α) (id number : Nat) : Mailboxes α × Option (List α) :=
  (m.change id fun b => b.empty number, (m.mailbox id).inbox? number)

/-- Takes all messages out of the last inbox of an endpoint, if it is there. -/
def drain (m : Mailboxes α) (id : Nat) : Mailboxes α × Option (List α) :=
  m.receive id (m.mailbox id).last

/-- The connected endpoints in ascending order. -/
def connected (m : Mailboxes α) : List Nat :=
  (m.toList.filter fun entry => entry.2.connected).map Prod.fst

end Mailboxes

end Hub

open Hub in
/-- The mailboxes of the replicas and of the clients. -/
structure Hub where
  replicas : Mailboxes ReplicaMessage := ∅
  clients : Mailboxes ClientMessage := ∅

namespace Hub

/-- The number of the last inbox of an endpoint. -/
def last (h : Hub) : Endpoint → Nat
  | .replica id => (h.replicas.mailbox id).last
  | .client id => (h.clients.mailbox id).last

/-- Hands out a new inbox to an endpoint. -/
def connect (h : Hub) : Endpoint → Hub
  | .replica id => { h with replicas := h.replicas.connect id }
  | .client id => { h with clients := h.clients.connect id }

/-- Sends nothing more to an endpoint. -/
def disconnect (h : Hub) : Endpoint → Hub
  | .replica id => { h with replicas := h.replicas.disconnect id }
  | .client id => { h with clients := h.clients.disconnect id }

/-- Throws an inbox of an endpoint away. -/
def discard (h : Hub) (e : Endpoint) (number : Nat) : Hub :=
  match e with
  | .replica id => { h with replicas := h.replicas.discard id number }
  | .client id => { h with clients := h.clients.discard id number }

/-- Throws the last inbox of an endpoint away. -/
def hangUp (h : Hub) (e : Endpoint) : Hub := h.discard e (h.last e)

/-- Sends a message to one replica. -/
def sendReplica (h : Hub) (id : ReplicaId) (m : ReplicaMessage) : Hub :=
  { h with replicas := h.replicas.post id m }

/-- Sends a message to one client. -/
def sendClient (h : Hub) (id : ClientId) (m : ClientMessage) : Hub :=
  { h with clients := h.clients.post id m }

/-- Sends a message to every connected replica except the sender. -/
def broadcast (h : Hub) (sender : Endpoint) (m : ReplicaMessage) : Hub :=
  (h.replicas.connected.filter fun id => sender ≠ .replica id).foldl
    (fun h id => h.sendReplica id m) h

end Hub

end WitnessReplication
