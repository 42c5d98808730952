import WitnessReplication.Config
import WitnessReplication.Message
import WitnessReplication.Quorum.Certificate

/-!
# Clients

A client follows each strong command with two certificates. The fast one needs three quarters of
the replicas, the leader among them; its votes must agree. The slow one needs a majority and the
leader's committed result. Whichever completes first completes the command. A command that cannot
take the fast path asks the leader once for its committed result.

A weak command completes with a single reply; a causal reply counts only from the replica that
the client is bound to.
-/

namespace WitnessReplication

namespace Client

/-- A completed command. -/
structure Completion where
  id : CommandId
  value : Value
  path : Path
  deriving DecidableEq, Repr

/-- How many commands completed by each path, and how many fell back to the slow path. -/
structure Stats where
  fast : Nat := 0
  slow : Nat := 0
  weak : Nat := 0
  escalated : Nat := 0
  deriving DecidableEq, Repr, Inhabited

/-- Counts a completed command. -/
def Stats.count (s : Stats) : Path → Stats
  | .fast => { s with fast := s.fast + 1 }
  | .slow => { s with slow := s.slow + 1 }
  | .weak => { s with weak := s.weak + 1 }

/-- One replica's answer, as a certificate counts it. -/
structure Vote where
  ok : Ack
  weakDep : Option CommandId
  value : Option Value
  deriving DecidableEq, Repr

/-- The vote of a result. -/
def Vote.ofReply (m : Reply) : Vote := ⟨m.ok, none, some m.value⟩

/-- The vote of a witness's verdict. -/
def Vote.ofRecordAck (m : RecordAck) : Vote := ⟨m.ok, m.weakDep, none⟩

/-- The value of a command on the fast path: the leader's, if the leader was clear, no witness
refused and all witnesses name the same weak write. -/
def fastValue (q : Quorum.Votes Vote) : Option Value :=
  match q.leader with
  | none => none
  | some vote =>
    if vote.ok ≠ .clear ∨ (q.rest.any fun w => w.ok = .refused) ∨
        (q.rest.any fun w => some w.weakDep ≠ q.rest.head?.map Vote.weakDep) then none
    else vote.value

/-- The value of a command on the slow path: the leader's. -/
def slowValue (q : Quorum.Votes Vote) : Value :=
  (q.leader.bind Vote.value).getD .nil

/-- A strong command that has not completed. -/
structure Pending where
  fast : Quorum.Certificate Vote
  slow : Quorum.Certificate Vote
  escalated : Bool
  deriving DecidableEq, Repr

/-- What a message decides about a command. -/
inductive Decision where
  | wait
  | escalate
  | complete (value : Value) (path : Path)
  deriving DecidableEq, Repr

end Client

open Client in
/-- A client. -/
structure Client where
  id : ClientId
  /-- The replica whose causal replies count. -/
  bound : ReplicaId
  config : Config
  nextSeq : SeqNum := 0
  /-- The position of the latest weak command. -/
  lastWeak : Option SeqNum := none
  pending : Std.ExtTreeMap CommandId Pending := ∅
  weak : Std.ExtTreeSet CommandId := ∅
  stats : Stats := {}

namespace Client

/-- What a message makes a client do. -/
structure Reaction where
  client : Client
  sent : List Sent := []
  completion : Option Completion := none

/-- Client `id`, bound to replica `bound`. -/
def start (id : ClientId) (bound : ReplicaId) (config : Config) : Except ConfigError Client :=
  match config.validateReplica bound with
  | .error e => .error e
  | .ok () => .ok { id, bound, config }

/-- The number of commands that have not completed. -/
def inFlight (c : Client) : Nat := c.pending.size + c.weak.size

/-- Sends a strong command to every replica. -/
def propose (c : Client) (command : Command) : Client × CommandId × List Sent :=
  let id : CommandId := ⟨c.id, c.nextSeq⟩
  let pending : Pending :=
    ⟨.new .threeQuarters c.config.replicas c.config.leader true,
      .new .majority c.config.replicas c.config.leader true, false⟩
  ({ c with nextSeq := c.nextSeq + 1, pending := c.pending.insert id pending }, id,
    [.toAll (.propose ⟨id, command⟩)])

/-- Sends a weak command: to the leader, or to every replica. -/
def proposeWeak (c : Client) (command : Command) : Client × CommandId × List Sent :=
  let id : CommandId := ⟨c.id, c.nextSeq⟩
  ({ c with
      nextSeq := c.nextSeq + 1
      lastWeak := some id.seq
      weak := c.weak.insert id }, id,
    match c.config.variant with
    | .leaderOnly =>
      [.toReplica c.config.leader (.weakPropose ⟨id, command, c.lastWeak, none⟩)]
    | .everyReplica => [.toAll (.causalPropose ⟨id, command, c.lastWeak, some c.bound⟩)])

/-- Counts a speculative result. -/
def Pending.onReply (p : Pending) (m : Reply) : Pending × Decision :=
  let counted := p.fast.add m.replica (.ofReply m)
  ({ p with fast := counted.1 },
    match counted.2 with
    | some q =>
      match fastValue q with
      | some value => .complete value .fast
      | none => .escalate
    | none => if m.ok ≠ .clear then .escalate else .wait)

/-- Counts a committed result. -/
def Pending.onSyncReply (p : Pending) (m : Reply) : Pending × Decision :=
  let counted := p.slow.add m.replica (.ofReply m)
  ({ p with slow := counted.1 },
    match counted.2 with
    | some q => .complete (slowValue q) .slow
    | none => .wait)

/-- Counts a witness's verdict. -/
def Pending.onRecordAck (p : Pending) (m : RecordAck) : Pending × Decision :=
  let fast := p.fast.add m.replica (.ofRecordAck m)
  let slow := p.slow.add m.replica (.ofRecordAck m)
  ({ p with fast := fast.1, slow := slow.1 },
    match fast.2.map fastValue, slow.2 with
    | some (some value), _ => .complete value .fast
    | _, some q => .complete (slowValue q) .slow
    | some none, none => .escalate
    | none, none => .wait)

/-- Asks the leader for the committed result of a command, once. -/
def escalate (c : Client) (id : CommandId) (p : Pending) : Reaction :=
  if p.escalated then { client := { c with pending := c.pending.insert id p } }
  else
    { client :=
        { c with
          pending := c.pending.insert id { p with escalated := true }
          stats := { c.stats with escalated := c.stats.escalated + 1 } }
      sent := [.toReplica c.config.leader (.sync ⟨id⟩)] }

/-- Counts a message about a strong command and carries out what it decides. A command that is not
pending is passed over. -/
def update (c : Client) (id : CommandId) (count : Pending → Pending × Decision) : Reaction :=
  match c.pending[id]? with
  | none => { client := c }
  | some p =>
    let counted := count p
    match counted.2 with
    | .wait => { client := { c with pending := c.pending.insert id counted.1 } }
    | .escalate => c.escalate id counted.1
    | .complete value path =>
      { client := { c with pending := c.pending.erase id, stats := c.stats.count path }
        completion := some ⟨id, value, path⟩ }

/-- Completes a weak command. -/
def completeWeak (c : Client) (m : WeakReply) : Reaction :=
  if c.weak.contains m.id then
    { client := { c with weak := c.weak.erase m.id, stats := c.stats.count .weak }
      completion := some ⟨m.id, m.value, .weak⟩ }
  else { client := c }

/-- Handles a message. -/
def handle (c : Client) : ClientMessage → Reaction
  | .reply m => c.update m.id fun p => p.onReply m
  | .syncReply m => c.update m.id fun p => p.onSyncReply m
  | .recordAck m =>
    if m.ballot ≠ c.config.ballot then { client := c }
    else c.update m.id fun p => p.onRecordAck m
  | .weakReply m => c.completeWeak m
  | .causalReply m => if m.replica = c.bound then c.completeWeak m else { client := c }

/-- The replica with the least latency, of several the one with the least number. -/
def closest? (latencies : List (ReplicaId × Nat)) : Option ReplicaId :=
  (latencies.foldl (fun best entry =>
    match best with
    | none => some entry
    | some b =>
      if entry.2 < b.2 ∨ (entry.2 = b.2 ∧ entry.1 < b.1) then some entry else some b)
    none).map Prod.fst

end Client

/-- A source of client numbers, which wrap around after the last 32-bit number. -/
structure ClientFactory where
  next : ClientId
  deriving DecidableEq, Repr

namespace ClientFactory

/-- Takes the next client number. -/
def take (f : ClientFactory) : ClientFactory × ClientId :=
  (⟨(f.next + 1) % UInt32.size⟩, f.next)

/-- Makes a client with the next number; the number is taken even if the client cannot be. -/
def build (f : ClientFactory) (config : Config) (bound : ReplicaId) :
    ClientFactory × ClientId × Except ConfigError Client :=
  let taken := f.take
  (taken.1, taken.2, Client.start taken.2 bound config)

end ClientFactory

end WitnessReplication
