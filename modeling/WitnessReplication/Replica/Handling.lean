import WitnessReplication.Replica.Delivery

/-!
# Handling messages

What a replica does with a message. The leader gives a strong command a slot, answers it
speculatively and replicates it; the other replicas witness it. A weak command is taken, and
perhaps answered, at once; the leader then puts it in order, for which it is handed on as a
`WeakCommand`. All other messages go to the slots they name.

`Replica.handle` handles a message with every slot served on the spot and weak commands ordered
at once. `Replica.step` gives the messages this sends.

## Implementation notes

`Replica.respond` changes the replica and plans the rest as a list of steps, so that a replica
whose slots are served by tasks can carry the same plan out differently.
-/

namespace WitnessReplication.Replica

/-- A planned step: an effect, or an event handed to a slot. -/
inductive Step where
  | emit (effect : Effect)
  | route (slot : Slot) (event : Event)
  deriving DecidableEq, Repr

/-- A response to a message: the replica, the steps to carry out in order, and the weak command
that the leader has to put in order after them. -/
structure Response where
  replica : Replica
  steps : List Step
  weak : Option WeakCommand := none

/-- Gives a command the next slot; also gives that slot and the slot the command depends on. -/
def assign (r : Replica) (id : CommandId) (c : Command) (strong : Bool) :
    Replica × Except Witness.AssignError (Slot × Option Slot) :=
  let slot := r.nextSlot
  let assigned := r.witness.assign id c strong slot
  let r := { r with witness := assigned.1, nextSlot := slot + 1 }
  match assigned.2 with
  | .error e => (r, .error e)
  | .ok dep => ({ r with slots := r.slots.insert id slot }, .ok (slot, dep))

/-- The accept that replicates a command. -/
def acceptFor (r : Replica) (slot : Slot) (id : CommandId) (c : Command) (weak : Bool) : Accept :=
  ⟨r.config.ballot, id, slot, some c, weak⟩

/-- The leader's answer to a strong command: it gets a slot, a speculative result and, if the
slot it depends on is not committed, a refusal. A command that has a slot is passed over. -/
def leadPropose (r : Replica) (id : CommandId) (c : Command) : Response :=
  if r.slots.contains id then ⟨r, [], none⟩
  else
    match r.assign id c true with
    | (r, .error _) => ⟨r, [], none⟩
    | (r, .ok (slot, dep)) =>
      let value := r.speculate id c true
      let r := r.recordPending id c
      let ok := if dep.all r.isCommitted then Ack.clear else .refused
      ⟨r,
        [.route slot (.propose ⟨id, c, false, ok = .refused, false, false⟩),
          .emit (.tell id.client (.reply ⟨r.id, id, value, ok⟩)),
          .emit (.accept (r.acceptFor slot id c false))],
        none⟩

/-- The verdict of a replica that does not lead on a strong command. A witnessed command is passed
over. -/
def witnessPropose (r : Replica) (id : CommandId) (c : Command) : Response :=
  if r.witnessed.contains id then ⟨r, [], none⟩
  else
    let recorded := r.recordWitness id c true
    ⟨recorded.1,
      [.emit (.tell id.client
        (.recordAck ⟨r.id, r.config.ballot, id, recorded.2.ok, recorded.2.weakDep⟩))],
      none⟩

/-- The leader's answer to a request for a committed result: the result if there is one;
otherwise the client waits. -/
def respondSync (r : Replica) (id : CommandId) : Response :=
  if !r.isLeader then ⟨r, [], none⟩
  else
    match r.values[id]? with
    | some value => ⟨r, [.emit (r.syncReply id value)], none⟩
    | none => ⟨{ r with syncWaiters := r.syncWaiters.insert id }, [], none⟩

/-- Enters a weak command into the witness: the leader stages it, the others record it. -/
def witnessWeak (r : Replica) (id : CommandId) (c : Command) : Replica :=
  if !r.config.variant.witnesses r.isLeader then r
  else if r.isLeader then { r with witness := r.witness.stage id c }
  else (r.recordWitness id c false).1

/-- The answer to a weak command. -/
def respondWeak (r : Replica) (m : WeakPropose) (causal : Bool) : Response :=
  if !r.config.variant.accepts r.isLeader then ⟨r, [], none⟩
  else
    let value := r.speculate m.id m.command false
    let r := (r.recordPending m.id m.command).witnessWeak m.id m.command
    ⟨r,
      if r.config.variant.repliesSpeculatively then [.emit (r.weakReply m.id value causal)] else [],
      if r.isLeader then some ⟨m.id, m.command, m.causalDep, causal⟩ else none⟩

/-- The steps of an acknowledgement; only the leader counts them. -/
def ackSteps (r : Replica) (m : AcceptAck) : List Step :=
  if r.isLeader then [.route m.slot (.acceptAck m)] else []

/-- The response to a message. -/
def respond (r : Replica) : ReplicaMessage → Response
  | .propose m =>
    if r.isLeader then r.leadPropose m.id m.command else r.witnessPropose m.id m.command
  | .sync m => r.respondSync m.id
  | .weakPropose m => r.respondWeak m false
  | .causalPropose m => r.respondWeak m true
  | .accept m => ⟨r, [.route m.slot (.accept m)], none⟩
  | .acceptAck m => ⟨r, r.ackSteps m, none⟩
  | .commit m => ⟨r, [.route m.slot (.commit m)], none⟩
  | .batch m =>
    ⟨r, (m.accepts.map fun a => .route a.slot (.accept a)) ++ m.acks.flatMap r.ackSteps, none⟩

/-- Puts a weak command in order: gives it the next slot and plans its replication. With `reply`
set, executing the slot answers the client. -/
def orderWeak (r : Replica) (w : WeakCommand) (reply : Bool) :
    Replica × Option (Slot × List Step) :=
  match r.assign w.id w.command false with
  | (r, .error _) => (r, none)
  | (r, .ok (slot, _)) =>
    (r, some (slot,
      [.route slot (.propose ⟨w.id, w.command, true, false, reply, w.causal⟩),
        .emit (.accept (r.acceptFor slot w.id w.command true))]))

/-- Carries out one step, with the slot served on the spot. -/
def perform (r : Replica) : Step → Replica × List Effect
  | .emit effect => (r, [effect])
  | .route slot event => r.route slot event

/-- Carries out steps in order. -/
def performAll (r : Replica) : List Step → Replica × List Effect
  | [] => (r, [])
  | step :: steps =>
    let first := r.perform step
    let rest := first.1.performAll steps
    (rest.1, first.2 ++ rest.2)

/-- Puts a weak command in order at once; its slot answers the client if the variant answers
after execution. -/
def performWeak (r : Replica) (w : WeakCommand) : Replica × List Effect :=
  match r.orderWeak w r.config.variant.repliesAfterExecute with
  | (r, none) => (r, [])
  | (r, some (_, steps)) => r.performAll steps

/-- Handles a message, with every slot served on the spot and weak commands ordered at once. -/
def handle (r : Replica) (m : ReplicaMessage) : Replica × List Effect :=
  let response := r.respond m
  let done := response.replica.performAll response.steps
  match response.weak with
  | none => done
  | some w =>
    let ordered := done.1.performWeak w
    (ordered.1, done.2 ++ ordered.2)

/-- Handles a message, and gives the messages that this sends. -/
def step (r : Replica) (m : ReplicaMessage) : Replica × List Sent :=
  let handled := r.handle m
  (handled.1, handled.2.filterMap (Effect.sent r.config.leader))

/-- Replica `id` of a cluster, without tasks. Batching needs tasks. -/
def start (id : ReplicaId) (config : Config) : Except ConfigError Replica :=
  match config.validateReplica id with
  | .error e => .error e
  | .ok () => if config.batching then .error .runtime else .ok (.initial id config)

end WitnessReplication.Replica
