import WitnessReplication.Client
import WitnessReplication.Host.Running
import WitnessReplication.Hub
import WitnessReplication.Scenario

/-!
# Running scenarios

A cluster of hosts and clients that exchange messages through one hub, on one clock. Messages take
no time. Every host and every client has a task that takes messages from its inbox, besides the
tasks of the hosts.

`Cluster.start` puts the cluster of a scenario under way and `Cluster.run` runs an instruction,
which gives what it prints or the reason why it failed. Whoever runs instructions has precedence
over the tasks: when a pause ends, the next instruction is begun before they run, and when a command
has completed by the end of a turn, it is begun before those that are still in the queue run.
-/

namespace WitnessReplication

namespace Cluster

/-- The tasks of a cluster: one takes the messages of a replica, one those of the client at a
place, and the others are tasks of a replica's host. -/
inductive Task where
  | replica (id : ReplicaId)
  | client (place : Nat)
  | host (id : ReplicaId) (task : Host.Task)
  deriving DecidableEq, Repr

end Cluster

/-- The hosts and clients of a cluster in order, the hub between them, the commands that have
completed, and how long an instruction may take. -/
structure Cluster where
  config : Config
  timeout : Nat
  hosts : List Host
  clients : List Client
  hub : Hub
  completions : List Client.Completion := []

namespace Cluster

/-- The number of the client at a place. -/
def clientId (place : Nat) : ClientId := place + 1

/-- The place of a client, if it has one. -/
def placeOf? (id : ClientId) : Option Nat := if id = 0 then none else some (id - 1)

/-- A cluster and requests to its clock. -/
abbrev Change := Cluster × List (Clock.Request Task)

/-- Sends a message through the hub and wakes those who take it. -/
def post (c : Cluster) (sender : Hub.Endpoint) : Sent → Change
  | .toAll m =>
    ({ c with hub := c.hub.broadcast sender m },
      (c.hub.replicas.connected.filter fun id => sender ≠ .replica id).map fun id =>
        .wake (.replica id))
  | .toReplica id m => ({ c with hub := c.hub.sendReplica id m }, [.wake (.replica id)])
  | .toClient id m =>
    ({ c with hub := c.hub.sendClient id m },
      (placeOf? id).toList.map fun place => .wake (.client place))

/-- Sends messages in order. -/
def postAll (c : Cluster) (sender : Hub.Endpoint) : List Sent → Change
  | [] => (c, [])
  | m :: ms =>
    let first := c.post sender m
    let rest := first.1.postAll sender ms
    (rest.1, first.2 ++ rest.2)

/-- A request of a host as one of the cluster. -/
def hostRequest (id : ReplicaId) : Clock.Request Host.Task → Clock.Request Task
  | .wake task => .wake (.host id task)
  | .alarm task instant => .alarm (.host id task) instant
  | .calm task => .calm (.host id task)

/-- Carries out the signals of a host. -/
def signalAll (c : Cluster) (id : ReplicaId) : List Host.Signal → Change
  | [] => (c, [])
  | .request r :: signals =>
    let rest := c.signalAll id signals
    (rest.1, hostRequest id r :: rest.2)
  | .send m :: signals =>
    let first := c.post (.replica id) m
    let rest := first.1.signalAll id signals
    (rest.1, first.2 ++ rest.2)

/-- Replaces a host and carries out its signals. -/
def setHost (c : Cluster) (id : ReplicaId) (change : Host × List Host.Signal) : Change :=
  { c with hosts := c.hosts.set id change.1 }.signalAll id change.2

/-- Hands messages to a replica. -/
def serveReplica (c : Cluster) (id : ReplicaId) : List ReplicaMessage → Change
  | [] => (c, [])
  | m :: ms =>
    match c.hosts[id]? with
    | none => (c, [])
    | some h =>
      let first := c.setHost id (h.handle m)
      let rest := first.1.serveReplica id ms
      (rest.1, first.2 ++ rest.2)

/-- Hands messages to the client at a place. -/
def serveClient (c : Cluster) (place : Nat) : List ClientMessage → Change
  | [] => (c, [])
  | m :: ms =>
    match c.clients[place]? with
    | none => (c, [])
    | some client =>
      let reaction := client.handle m
      let first :=
        { c with
          clients := c.clients.set place reaction.client
          completions := c.completions ++ reaction.completion.toList }.postAll
          (.client (clientId place)) reaction.sent
      let rest := first.1.serveClient place ms
      (rest.1, first.2 ++ rest.2)

/-- One look of a task. -/
def look (now : Nat) (task : Task) (c : Cluster) : Change :=
  match task with
  | .replica id =>
    let drained := Hub.Mailboxes.drain c.hub.replicas id
    { c with hub := { c.hub with replicas := drained.1 } }.serveReplica id (drained.2.getD [])
  | .client place =>
    let drained := Hub.Mailboxes.drain c.hub.clients (clientId place)
    { c with hub := { c.hub with clients := drained.1 } }.serveClient place (drained.2.getD [])
  | .host id task =>
    match c.hosts[id]? with
    | none => (c, [])
    | some h => c.setHost id (h.look now task)

/-- The number of messages in the last inboxes of endpoints. -/
def inboxLoad {α : Type} (m : Hub.Mailboxes α) : Nat :=
  (m.toList.map fun entry => ((entry.2.inbox? entry.2.last).getD []).length).foldr (· + ·) 0

/-- A bound on the looks it takes to settle. Every message, event, live slot and weak command
causes a number of further messages that grows with the number of replicas. -/
def effort (queued : Nat) (c : Cluster) : Nat :=
  let load := inboxLoad c.hub.replicas + inboxLoad c.hub.clients +
    (c.clients.map Client.inFlight).foldr (· + ·) 0 +
    (c.hosts.map fun h => h.effort 0 +
      (match h.batcher with
        | some b => b.queued.size
        | none => 0)).foldr (· + ·) 0
  64 * (c.hosts.length + 2) * (c.hosts.length + 2) * (c.hosts.length + 2) * (queued + load + 1)

/-- A running cluster as a program. -/
def program : Program Cluster Task where
  look := look
  effort := effort

/-- The configuration of a scenario's cluster. -/
def configOf (spec : Scenario.ClusterSpec) : Config :=
  let c : Config :=
    { replicas := spec.replicas
      leader := spec.leader
      variant := spec.variant
      maxSlotTasks := spec.maxSlotTasks.getD 1024 }
  if spec.batching then c.withBatching spec.batchDelay else c

/-- The replica that a client is bound to: the one with the least latency, and without latencies
the leader if only the leader answers weak commands. -/
def boundOf (config : Config) (place : Nat) (spec : Scenario.ClientSpec) :
    Except Scenario.Error ReplicaId :=
  match Client.closest? (spec.latencies.zipIdx.map fun entry => (entry.2, entry.1)) with
  | some id => .ok id
  | none => if config.variant = .leaderOnly then .ok config.leader else .error (.unbound place)

/-- The client at a place. -/
def clientOf (config : Config) (place : Nat) (spec : Scenario.ClientSpec) :
    Except Scenario.Error Client :=
  match boundOf config place spec with
  | .error e => .error e
  | .ok bound => (Client.start (clientId place) bound config).mapError .config

/-- The hub that connects replicas and clients. -/
def connectAll (replicas clients : Nat) : Hub :=
  let h := (List.range replicas).foldl (fun h id => h.connect (.replica id)) ({} : Hub)
  (List.range clients).foldl (fun h place => h.connect (.client (clientId place))) h

/-- Puts the cluster of a scenario under way. -/
def start (spec : Scenario.ClusterSpec) : Except Scenario.Error (Run Cluster Task) := do
  let config := configOf spec
  config.validate.mapError .config
  let started ← (List.range spec.replicas).mapM fun id => (Host.start id config).mapError .config
  let clients ← spec.clients.zipIdx.mapM fun entry => clientOf config entry.2 entry.1
  let cluster : Cluster :=
    { config
      timeout := spec.timeout
      hosts := started.map Prod.fst
      clients
      hub := connectAll spec.replicas clients.length }
  let hostTasks := started.zipIdx.flatMap fun entry =>
    (Host.Running.requests entry.1.2).map (hostRequest entry.2) ++ [.wake (.replica entry.2)]
  let clientTasks := (List.range clients.length).map fun place => .wake (.client place)
  return Run.put ⟨{}, cluster⟩ (cluster, hostTasks ++ clientTasks)

/-- The completion of a command, once it has completed. -/
def completion? (c : Cluster) (id : CommandId) : Option Client.Completion :=
  c.completions.find? fun completion => completion.id = id

/-- Waits until a command has completed, up to an instant. A command that completes at that
instant is late. Tasks that are in the queue when the wait ends stay there. -/
def waitUntil (id : CommandId) (deadline : Nat) (r : Run Cluster Task) :
    Run Cluster Task × Option Client.Completion :=
  let settled := r.settleUnless program fun c => (c.completion? id).isSome
  match settled.state.completion? id with
  | some completion => (settled, some completion)
  | none =>
    match settled.clock.nextAlarm? with
    | some next =>
      if r.now < next ∧ next < deadline then
        waitUntil id deadline ⟨settled.clock.moveTo next, settled.state⟩
      else (settled.moveTo program deadline, none)
    | none => (settled.moveTo program deadline, none)
termination_by deadline - r.now
decreasing_by
  change deadline - (settled.clock.moveTo next).now < deadline - r.now
  rw [Clock.now_moveTo]
  omega

/-- What an instruction leaves: the cluster, and the texts it prints or why it failed. -/
abbrev Finished := Run Cluster Task × Except Scenario.Error (List String)

/-- The text that tells of a completed command. The value in it may run over several lines. -/
def completionText (place : Nat) (c : Client.Completion) : String :=
  "client " ++ toString place ++ " " ++ c.id.describe ++ ": " ++ c.value.display ++ " (" ++
    c.path.title ++ " path)"

/-- Lets a client issue a command and waits for it to complete. A wait of no length is in vain. -/
def issue (r : Run Cluster Task) (instruction : Scenario.Instruction) (place : Nat)
    (propose : Client → Client × CommandId × List Sent) : Finished :=
  match r.state.clients[place]? with
  | none => (r, .error (.client place))
  | some client =>
    let proposed := propose client
    let c := { r.state with clients := r.state.clients.set place proposed.1 }
    let r := r.put (c.postAll (.client (clientId place)) proposed.2.2)
    if c.timeout = 0 then (r, .error (.timeout instruction))
    else
      let waited := waitUntil proposed.2.1 (r.now + c.timeout) r
      match waited.2 with
      | some completion => (waited.1, .ok [completionText place completion])
      | none => (waited.1, .error (.timeout instruction))

/-- Lets a client issue a strong command. -/
def issueStrong (r : Run Cluster Task) (i : Scenario.Instruction) (place : Nat)
    (command : Command) : Finished :=
  issue r i place fun client => client.propose command

/-- Lets a client issue a weak command, which only one variant takes under the given name. -/
def issueWeak (r : Run Cluster Task) (i : Scenario.Instruction) (name : String) (needed : Variant)
    (place : Nat) (command : Command) : Finished :=
  if r.state.config.variant ≠ needed then (r, .error (.variant name needed))
  else issue r i place fun client => client.proposeWeak command

/-- The line that reports on the client at a place. -/
def clientLine (place : Nat) (client : Client) : String :=
  let s := client.stats
  "client " ++ toString place ++ ": fast " ++ toString s.fast ++ ", slow " ++ toString s.slow ++
    ", weak " ++ toString s.weak ++ ", escalated " ++ toString s.escalated

/-- What the line on a replica says of its batches. -/
def batchText (s : Batcher.Stats) : String :=
  ", " ++ toString s.batches ++ " batches (min " ++ toString s.min ++ ", max " ++ toString s.max ++
    ", avg " ++ s.average 2 ++ ", " ++ toString s.accepts ++ " accepts, " ++ toString s.acks ++
    " acks)"

/-- The line that reports on a replica. -/
def replicaLine (h : Host) : String :=
  "replica " ++ toString h.replica.id ++ ": executed " ++ toString h.replica.executed ++
    " slots, applied " ++ toString h.replica.store.applied ++
    (match h.batcher with
      | some b => batchText b.stats
      | none => "")

/-- The report on all clients and replicas. -/
def report (c : Cluster) : List String :=
  (c.clients.zipIdx.map fun entry => clientLine entry.2 entry.1) ++ c.hosts.map replicaLine

/-- Runs an instruction. -/
def run (r : Run Cluster Task) (i : Scenario.Instruction) : Finished :=
  match i with
  | .put place key value => issueStrong r i place (.put key value)
  | .get place key => issueStrong r i place (.get key)
  | .scan place key count => issueStrong r i place (.scan key count)
  | .weakPut place key value => issueWeak r i "weak_put" .leaderOnly place (.put key value)
  | .weakGet place key => issueWeak r i "weak_get" .leaderOnly place (.get key)
  | .causalPut place key value => issueWeak r i "causal_put" .everyReplica place (.put key value)
  | .causalGet place key => issueWeak r i "causal_get" .everyReplica place (.get key)
  | .sleep span => (r.pause program span, .ok [])
  | .stats => (r, .ok r.state.report)

/-- Runs instructions until one fails: the texts that each printed, and why the last one failed. -/
def runAll (r : Run Cluster Task) :
    List Scenario.Instruction → List (List String) × Option Scenario.Error
  | [] => ([], none)
  | i :: is =>
    match run r i with
    | (_, .error e) => ([[]], some e)
    | (r, .ok texts) =>
      let rest := runAll r is
      (texts :: rest.1, rest.2)

end Cluster

/-- Runs a scenario, unless its cluster does not start: the texts that each instruction printed,
and why the last one failed if one did. -/
def Scenario.run (s : Scenario) :
    Except Scenario.Error (List (List String) × Option Scenario.Error) :=
  match Cluster.start s.cluster with
  | .error e => .error e
  | .ok r => .ok (Cluster.runAll r s.instructions)

end WitnessReplication
