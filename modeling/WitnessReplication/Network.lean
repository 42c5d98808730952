import WitnessReplication.Client.Awaited
import WitnessReplication.Replica.Handling

/-!
# Networks

A network is a cluster of replicas and clients with the messages in flight between them. Nothing
happens by itself: a client issues a command, or a message in flight is delivered, lost or
duplicated. `Network.act` carries out one such action, and `Network.Reachable` holds of every
network that actions lead to.

## Implementation notes

Messages in flight form a list, and whatever is sent goes to its end, so that a list of actions
fixes a run and any order of delivery is a run.
-/

namespace WitnessReplication

namespace Network

/-- A message in flight, with its one addressee. -/
inductive Letter where
  | toReplica (id : ReplicaId) (message : ReplicaMessage)
  | toClient (id : ClientId) (message : ClientMessage)
  deriving DecidableEq, Repr

/-- A letter as a message sent to its addressee. -/
def Letter.sent : Letter → Sent
  | .toReplica id m => .toReplica id m
  | .toClient id m => .toClient id m

/-- What can happen: a client issues a strong or a weak command, or the message at a place in the
list of those in flight is delivered, lost or duplicated. -/
inductive Action where
  | propose (client : Nat) (command : Command)
  | proposeWeak (client : Nat) (command : Command)
  | deliver (place : Nat)
  | drop (place : Nat)
  | duplicate (place : Nat)
  deriving DecidableEq, Repr

end Network

open Network in
/-- Replicas numbered from zero, clients numbered from one, and the messages in flight. -/
structure Network where
  replicas : List Replica
  clients : List Client
  pool : List Letter

namespace Network

/-- Makes the replicas of a configuration and one client per bound replica. -/
def start (config : Config) (bounds : List ReplicaId) : Except ConfigError Network := do
  let replicas ← (List.range config.replicas).mapM fun id => Replica.start id config
  let clients ← bounds.zipIdx.mapM fun bound => Client.start (bound.2 + 1) bound.1 config
  return ⟨replicas, clients, []⟩

/-- The letters of a sent message: one per replica but the sender, or one. -/
def letters (n : Network) (sender : Option ReplicaId) : Sent → List Letter
  | .toAll m =>
    ((List.range n.replicas.length).filter fun id => some id ≠ sender).map fun id => .toReplica id m
  | .toReplica id m => [.toReplica id m]
  | .toClient id m => [.toClient id m]

/-- Puts sent messages in flight. -/
def post (n : Network) (sender : Option ReplicaId) (sent : List Sent) : Network :=
  { n with pool := n.pool ++ sent.flatMap (n.letters sender) }

/-- What an action did besides: the command it issued, the message it took out of or found in
flight, and the command it completed. -/
structure Result where
  network : Network
  issued : Option CommandId := none
  letter : Option Letter := none
  completion : Option Client.Completion := none

/-- Lets a client issue a command. -/
def issue (n : Network) (place : Nat)
    (propose : Client → Client × CommandId × List Sent) : Result :=
  match n.clients[place]? with
  | none => { network := n }
  | some c =>
    let proposed := propose c
    { network := { n with clients := n.clients.set place proposed.1 }.post none proposed.2.2
      issued := some proposed.2.1 }

/-- Hands a letter to its addressee; there may be none. -/
def receive (n : Network) : Letter → Network × Option Client.Completion
  | .toReplica id m =>
    match n.replicas[id]? with
    | none => (n, none)
    | some r =>
      let stepped := r.step m
      ({ n with replicas := n.replicas.set id stepped.1 }.post (some id) stepped.2, none)
  | .toClient id m =>
    if id = 0 then (n, none)
    else
      match n.clients[id - 1]? with
      | none => (n, none)
      | some c =>
        let reaction := c.handle m
        ({ n with clients := n.clients.set (id - 1) reaction.client }.post none reaction.sent,
          reaction.completion)

/-- Takes a message out of those in flight. -/
def remove (n : Network) (place : Nat) : Network :=
  { n with pool := n.pool.eraseIdx place }

/-- Carries out an action. An action on a client or a message that does not exist does nothing. -/
def perform (n : Network) : Action → Result
  | .propose place command => n.issue place fun c => c.propose command
  | .proposeWeak place command => n.issue place fun c => c.proposeWeak command
  | .deliver place =>
    match n.pool[place]? with
    | none => { network := n }
    | some letter =>
      let received := (n.remove place).receive letter
      { network := received.1, letter := some letter, completion := received.2 }
  | .drop place => { network := n.remove place, letter := n.pool[place]? }
  | .duplicate place =>
    { network := { n with pool := n.pool ++ (n.pool[place]?).toList }, letter := n.pool[place]? }

/-- The network after an action. -/
def act (n : Network) (action : Action) : Network := (n.perform action).network

/-- The networks that a configuration and its clients can get to. -/
inductive Reachable (config : Config) (bounds : List ReplicaId) : Network → Prop
  | start {n : Network} (h : Network.start config bounds = .ok n) : Reachable config bounds n
  | act {n : Network} (action : Action) (h : Reachable config bounds n) :
      Reachable config bounds (n.act action)

/-- Delivers up to `count` messages one after another, each the one at the place that `next`
picks among those in flight. -/
def flush (n : Network) (next : List Letter → Nat) :
    Nat → Network × List Letter × List Client.Completion
  | 0 => (n, [], [])
  | count + 1 =>
    let result := n.perform (.deliver (next n.pool))
    match result.letter with
    | none => (n, [], [])
    | some letter =>
      let rest := result.network.flush next count
      (rest.1, letter :: rest.2.1, result.completion.toList ++ rest.2.2)

/-- Delivers up to `count` messages, always the one longest in flight. -/
def flushOldest (n : Network) (count : Nat) : Network × List Letter × List Client.Completion :=
  n.flush (fun _ => 0) count

/-- Delivers up to `count` messages, always the one last sent. -/
def flushNewest (n : Network) (count : Nat) : Network × List Letter × List Client.Completion :=
  n.flush (fun pool => pool.length - 1) count

end Network

end WitnessReplication
