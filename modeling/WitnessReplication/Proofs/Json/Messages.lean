import WitnessReplication.Message.Json
import WitnessReplication.Proofs.Json.Codec

/-!
# Messages survive being written

Commands, ids, values and messages, each in the range of its numbers, are written without loss and
read back as themselves, and whatever is read is in range. The bodies of messages are records;
`ReplicaMessage.faithful` and `ClientMessage.faithful` take their parts together.
-/

namespace WitnessReplication

open Json

section Commands

theorem Json.faithful_asByte : Faithful (fun b : UInt8 => ofNat b.toNat) asByte fun _ => True where
  writable {b} _ := .integer false (Nat.lt_trans b.toNat_lt (by decide))
  read_write {b} _ := by
    have hread : asNat UInt8.size (ofNat b.toNat) = some b.toNat :=
      (faithful_asNat (by decide)).read_write b.toNat_lt
    rw [asByte, hread, Option.map_some, UInt8.ofNat_toNat]
  inRange _ := trivial

theorem Value.faithful : Faithful Value.toJson Value.ofJson? fun _ => True where
  writable _ := faithful_asByte.list.writable fun _ _ => trivial
  read_write {v} _ := by
    rw [Value.ofJson?, Value.toJson, faithful_asByte.list.read_write fun _ _ => trivial]
    rfl
  inRange _ := trivial

theorem Op.faithful : Faithful Op.toJson Op.ofJson? fun _ => True :=
  faithful_asName fun op => by cases op <;> rfl

theorem Ack.faithful : Faithful Ack.toJson Ack.ofJson? fun _ => True :=
  faithful_asName fun ok => by cases ok <;> rfl

/-- The key of a command has 64 bits with its sign. -/
structure Command.InRange (c : Command) : Prop where
  key : InInt64 c.key

theorem Command.faithful : Faithful Command.toJson Command.ofJson? Command.InRange := by
  have op := Op.faithful.demand
  have key := faithful_asInt64.demand
  have value := Value.faithful.demand
  refine .record (by decide) (fun _ => rfl) ?_ ?_ ?_
  · intro c h
    simp only [List.forall_mem_cons]
    exact ⟨op.writable trivial, key.writable h.key, value.writable trivial, List.forall_mem_nil _⟩
  · intro c h
    simp only [List.map_cons, List.map_nil, op.read_write trivial, key.read_write h.key,
      value.read_write trivial]
    rfl
  · intro parts c hc
    split at hc
    · simp only [Option.bind_eq_bind, Option.bind_eq_some_iff, Option.pure_def,
        Option.some.injEq] at hc
      obtain ⟨_, -, _, hkey, _, -, rfl⟩ := hc
      exact ⟨key.inRange hkey⟩
    · cases hc

/-- The numbers of a command id have 32 and 64 bits. -/
structure CommandId.InRange (id : CommandId) : Prop where
  client : id.client < UInt32.size
  seq : id.seq < UInt64.size

theorem CommandId.faithful : Faithful CommandId.toJson CommandId.ofJson? CommandId.InRange := by
  have client := faithful_asNat32.demand
  have seq := faithful_asNat64.demand
  refine .record (by decide) (fun _ => rfl) ?_ ?_ ?_
  · intro id h
    simp only [List.forall_mem_cons]
    exact ⟨client.writable h.client, seq.writable h.seq, List.forall_mem_nil _⟩
  · intro id h
    simp only [List.map_cons, List.map_nil, client.read_write h.client, seq.read_write h.seq]
    rfl
  · intro parts id hid
    split at hid
    · simp only [Option.bind_eq_bind, Option.bind_eq_some_iff, Option.pure_def,
        Option.some.injEq] at hid
      obtain ⟨_, hclient, _, hseq, rfl⟩ := hid
      exact ⟨client.inRange hclient, seq.inRange hseq⟩
    · cases hid

end Commands

section ToReplicas

/-- The parts of a proposal are in range. -/
structure Propose.InRange (m : Propose) : Prop where
  id : m.id.InRange
  command : m.command.InRange

theorem Propose.faithful : Faithful Propose.toJson Propose.ofJson? Propose.InRange := by
  have id := CommandId.faithful.demand
  have command := Command.faithful.demand
  refine .record (by decide) (fun _ => rfl) ?_ ?_ ?_
  · intro m h
    simp only [List.forall_mem_cons]
    exact ⟨id.writable h.id, command.writable h.command, List.forall_mem_nil _⟩
  · intro m h
    simp only [List.map_cons, List.map_nil, id.read_write h.id, command.read_write h.command]
    rfl
  · intro parts m hm
    split at hm
    · simp only [Option.bind_eq_bind, Option.bind_eq_some_iff, Option.pure_def,
        Option.some.injEq] at hm
      obtain ⟨_, hid, _, hcommand, rfl⟩ := hm
      exact ⟨id.inRange hid, command.inRange hcommand⟩
    · cases hm

/-- The id in a request for a result is in range. -/
structure Sync.InRange (m : Sync) : Prop where
  id : m.id.InRange

theorem Sync.faithful : Faithful Sync.toJson Sync.ofJson? Sync.InRange := by
  have id := CommandId.faithful.demand
  refine .record (by decide) (fun _ => rfl) ?_ ?_ ?_
  · intro m h
    exact List.forall_mem_singleton.2 (id.writable h.id)
  · intro m h
    simp only [List.map_cons, List.map_nil, id.read_write h.id]
    rfl
  · intro parts m hm
    split at hm
    · simp only [Option.bind_eq_bind, Option.bind_eq_some_iff, Option.pure_def,
        Option.some.injEq] at hm
      obtain ⟨_, hid, rfl⟩ := hm
      exact ⟨id.inRange hid⟩
    · cases hm

/-- The parts of a weak proposal are in range. -/
structure WeakPropose.InRange (m : WeakPropose) : Prop where
  id : m.id.InRange
  command : m.command.InRange
  causalDep : ∀ seq ∈ m.causalDep, seq < UInt64.size
  boundReplica : ∀ replica ∈ m.boundReplica, replica < UInt64.size

theorem WeakPropose.faithful :
    Faithful WeakPropose.toJson WeakPropose.ofJson? WeakPropose.InRange := by
  have id := CommandId.faithful.demand
  have command := Command.faithful.demand
  have number := faithful_asNat64.orNone (by simp [ofNat])
  refine .record (by decide) (fun _ => rfl) ?_ ?_ ?_
  · intro m h
    simp only [List.forall_mem_cons]
    exact ⟨id.writable h.id, command.writable h.command, number.writable h.causalDep,
      number.writable h.boundReplica, List.forall_mem_nil _⟩
  · intro m h
    simp only [List.map_cons, List.map_nil, id.read_write h.id, command.read_write h.command,
      number.read_write h.causalDep, number.read_write h.boundReplica]
    rfl
  · intro parts m hm
    split at hm
    · simp only [Option.bind_eq_bind, Option.bind_eq_some_iff, Option.pure_def,
        Option.some.injEq] at hm
      obtain ⟨_, hid, _, hcommand, _, hdep, _, hbound, rfl⟩ := hm
      exact ⟨id.inRange hid, command.inRange hcommand, number.inRange hdep, number.inRange hbound⟩
    · cases hm

/-- The numbers of an accept have 32 and 64 bits, and its parts are in range. -/
structure Accept.InRange (m : Accept) : Prop where
  ballot : m.ballot < UInt32.size
  id : m.id.InRange
  slot : m.slot < UInt64.size
  command : ∀ c ∈ m.command, c.InRange

theorem Accept.faithful : Faithful Accept.toJson Accept.ofJson? Accept.InRange := by
  have ballot := faithful_asNat32.demand
  have id := CommandId.faithful.demand
  have slot := faithful_asNat64.demand
  have command := Command.faithful.orNone fun _ => by simp [Command.toJson, ofFields, ofMembers]
  have weak := faithful_asBool.demand
  refine .record (by decide) (fun _ => rfl) ?_ ?_ ?_
  · intro m h
    simp only [List.forall_mem_cons]
    exact ⟨ballot.writable h.ballot, id.writable h.id, slot.writable h.slot,
      command.writable h.command, weak.writable trivial, List.forall_mem_nil _⟩
  · intro m h
    simp only [List.map_cons, List.map_nil, ballot.read_write h.ballot, id.read_write h.id,
      slot.read_write h.slot, command.read_write h.command, weak.read_write trivial]
    rfl
  · intro parts m hm
    split at hm
    · simp only [Option.bind_eq_bind, Option.bind_eq_some_iff, Option.pure_def,
        Option.some.injEq] at hm
      obtain ⟨_, hballot, _, hid, _, hslot, _, hcommand, _, -, rfl⟩ := hm
      exact ⟨ballot.inRange hballot, id.inRange hid, slot.inRange hslot, command.inRange hcommand⟩
    · cases hm

/-- The numbers of an acknowledgement have 32 and 64 bits. -/
structure AcceptAck.InRange (m : AcceptAck) : Prop where
  ballot : m.ballot < UInt32.size
  slot : m.slot < UInt64.size
  replica : m.replica < UInt64.size

theorem AcceptAck.faithful : Faithful AcceptAck.toJson AcceptAck.ofJson? AcceptAck.InRange := by
  have ballot := faithful_asNat32.demand
  have number := faithful_asNat64.demand
  refine .record (by decide) (fun _ => rfl) ?_ ?_ ?_
  · intro m h
    simp only [List.forall_mem_cons]
    exact ⟨ballot.writable h.ballot, number.writable h.slot, number.writable h.replica,
      List.forall_mem_nil _⟩
  · intro m h
    simp only [List.map_cons, List.map_nil, ballot.read_write h.ballot, number.read_write h.slot,
      number.read_write h.replica]
    rfl
  · intro parts m hm
    split at hm
    · simp only [Option.bind_eq_bind, Option.bind_eq_some_iff, Option.pure_def,
        Option.some.injEq] at hm
      obtain ⟨_, hballot, _, hslot, _, hreplica, rfl⟩ := hm
      exact ⟨ballot.inRange hballot, number.inRange hslot, number.inRange hreplica⟩
    · cases hm

/-- The numbers of a commit have 32 and 64 bits. -/
structure Commit.InRange (m : Commit) : Prop where
  ballot : m.ballot < UInt32.size
  slot : m.slot < UInt64.size

theorem Commit.faithful : Faithful Commit.toJson Commit.ofJson? Commit.InRange := by
  have ballot := faithful_asNat32.demand
  have slot := faithful_asNat64.demand
  refine .record (by decide) (fun _ => rfl) ?_ ?_ ?_
  · intro m h
    simp only [List.forall_mem_cons]
    exact ⟨ballot.writable h.ballot, slot.writable h.slot, List.forall_mem_nil _⟩
  · intro m h
    simp only [List.map_cons, List.map_nil, ballot.read_write h.ballot, slot.read_write h.slot]
    rfl
  · intro parts m hm
    split at hm
    · simp only [Option.bind_eq_bind, Option.bind_eq_some_iff, Option.pure_def,
        Option.some.injEq] at hm
      obtain ⟨_, hballot, _, hslot, rfl⟩ := hm
      exact ⟨ballot.inRange hballot, slot.inRange hslot⟩
    · cases hm

/-- The messages in a batch are in range. -/
structure Batch.InRange (m : Batch) : Prop where
  accepts : ∀ a ∈ m.accepts, a.InRange
  acks : ∀ a ∈ m.acks, a.InRange

theorem Batch.faithful : Faithful Batch.toJson Batch.ofJson? Batch.InRange := by
  have accepts := Accept.faithful.list.demand
  have acks := AcceptAck.faithful.list.demand
  refine .record (by decide) (fun _ => rfl) ?_ ?_ ?_
  · intro m h
    simp only [List.forall_mem_cons]
    exact ⟨accepts.writable h.accepts, acks.writable h.acks, List.forall_mem_nil _⟩
  · intro m h
    simp only [List.map_cons, List.map_nil, accepts.read_write h.accepts, acks.read_write h.acks]
    rfl
  · intro parts m hm
    split at hm
    · simp only [Option.bind_eq_bind, Option.bind_eq_some_iff, Option.pure_def,
        Option.some.injEq] at hm
      obtain ⟨_, haccepts, _, hacks, rfl⟩ := hm
      exact ⟨accepts.inRange haccepts, acks.inRange hacks⟩
    · cases hm

/-- The body of a message to a replica is in range. -/
def ReplicaMessage.InRange : ReplicaMessage → Prop
  | .propose m => m.InRange
  | .sync m => m.InRange
  | .weakPropose m => m.InRange
  | .causalPropose m => m.InRange
  | .accept m => m.InRange
  | .acceptAck m => m.InRange
  | .commit m => m.InRange
  | .batch m => m.InRange

theorem ReplicaMessage.faithful :
    Faithful ReplicaMessage.toJson ReplicaMessage.ofJson? ReplicaMessage.InRange where
  writable {m} h := by
    cases m with
    | propose m => exact writable_tagged (by decide) (Propose.faithful.writable h)
    | sync m => exact writable_tagged (by decide) (Sync.faithful.writable h)
    | weakPropose m => exact writable_tagged (by decide) (WeakPropose.faithful.writable h)
    | causalPropose m => exact writable_tagged (by decide) (WeakPropose.faithful.writable h)
    | accept m => exact writable_tagged (by decide) (Accept.faithful.writable h)
    | acceptAck m => exact writable_tagged (by decide) (AcceptAck.faithful.writable h)
    | commit m => exact writable_tagged (by decide) (Commit.faithful.writable h)
    | batch m => exact writable_tagged (by decide) (Batch.faithful.writable h)
  read_write {m} h := by
    cases m with
    | propose m => exact Option.map_eq_some_iff.2 ⟨m, Propose.faithful.read_write h, rfl⟩
    | sync m => exact Option.map_eq_some_iff.2 ⟨m, Sync.faithful.read_write h, rfl⟩
    | weakPropose m => exact Option.map_eq_some_iff.2 ⟨m, WeakPropose.faithful.read_write h, rfl⟩
    | causalPropose m => exact Option.map_eq_some_iff.2 ⟨m, WeakPropose.faithful.read_write h, rfl⟩
    | accept m => exact Option.map_eq_some_iff.2 ⟨m, Accept.faithful.read_write h, rfl⟩
    | acceptAck m => exact Option.map_eq_some_iff.2 ⟨m, AcceptAck.faithful.read_write h, rfl⟩
    | commit m => exact Option.map_eq_some_iff.2 ⟨m, Commit.faithful.read_write h, rfl⟩
    | batch m => exact Option.map_eq_some_iff.2 ⟨m, Batch.faithful.read_write h, rfl⟩
  inRange {j m} hj := by
    unfold ofJson? at hj
    split at hj
    · obtain ⟨m, hm, rfl⟩ := Option.map_eq_some_iff.1 hj
      exact Propose.faithful.inRange hm
    · obtain ⟨m, hm, rfl⟩ := Option.map_eq_some_iff.1 hj
      exact Sync.faithful.inRange hm
    · obtain ⟨m, hm, rfl⟩ := Option.map_eq_some_iff.1 hj
      exact WeakPropose.faithful.inRange hm
    · obtain ⟨m, hm, rfl⟩ := Option.map_eq_some_iff.1 hj
      exact WeakPropose.faithful.inRange hm
    · obtain ⟨m, hm, rfl⟩ := Option.map_eq_some_iff.1 hj
      exact Accept.faithful.inRange hm
    · obtain ⟨m, hm, rfl⟩ := Option.map_eq_some_iff.1 hj
      exact AcceptAck.faithful.inRange hm
    · obtain ⟨m, hm, rfl⟩ := Option.map_eq_some_iff.1 hj
      exact Commit.faithful.inRange hm
    · obtain ⟨m, hm, rfl⟩ := Option.map_eq_some_iff.1 hj
      exact Batch.faithful.inRange hm
    · cases hj

end ToReplicas

section ToClients

/-- The number of the replica that gives a result has 64 bits, and the id is in range. -/
structure Reply.InRange (m : Reply) : Prop where
  replica : m.replica < UInt64.size
  id : m.id.InRange

theorem Reply.faithful : Faithful Reply.toJson Reply.ofJson? Reply.InRange := by
  have replica := faithful_asNat64.demand
  have id := CommandId.faithful.demand
  have value := Value.faithful.demand
  have ok := Ack.faithful.demand
  refine .record (by decide) (fun _ => rfl) ?_ ?_ ?_
  · intro m h
    simp only [List.forall_mem_cons]
    exact ⟨replica.writable h.replica, id.writable h.id, value.writable trivial,
      ok.writable trivial, List.forall_mem_nil _⟩
  · intro m h
    simp only [List.map_cons, List.map_nil, replica.read_write h.replica, id.read_write h.id,
      value.read_write trivial, ok.read_write trivial]
    rfl
  · intro parts m hm
    split at hm
    · simp only [Option.bind_eq_bind, Option.bind_eq_some_iff, Option.pure_def,
        Option.some.injEq] at hm
      obtain ⟨_, hreplica, _, hid, _, -, _, -, rfl⟩ := hm
      exact ⟨replica.inRange hreplica, id.inRange hid⟩
    · cases hm

/-- The numbers of a witness's verdict have 32 and 64 bits, and its ids are in range. -/
structure RecordAck.InRange (m : RecordAck) : Prop where
  replica : m.replica < UInt64.size
  ballot : m.ballot < UInt32.size
  id : m.id.InRange
  weakDep : ∀ id ∈ m.weakDep, id.InRange

theorem RecordAck.faithful : Faithful RecordAck.toJson RecordAck.ofJson? RecordAck.InRange := by
  have replica := faithful_asNat64.demand
  have ballot := faithful_asNat32.demand
  have id := CommandId.faithful.demand
  have ok := Ack.faithful.demand
  have weakDep := CommandId.faithful.orNone fun _ => by
    simp [CommandId.toJson, ofFields, ofMembers]
  refine .record (by decide) (fun _ => rfl) ?_ ?_ ?_
  · intro m h
    simp only [List.forall_mem_cons]
    exact ⟨replica.writable h.replica, ballot.writable h.ballot, id.writable h.id,
      ok.writable trivial, weakDep.writable h.weakDep, List.forall_mem_nil _⟩
  · intro m h
    simp only [List.map_cons, List.map_nil, replica.read_write h.replica,
      ballot.read_write h.ballot, id.read_write h.id, ok.read_write trivial,
      weakDep.read_write h.weakDep]
    rfl
  · intro parts m hm
    split at hm
    · simp only [Option.bind_eq_bind, Option.bind_eq_some_iff, Option.pure_def,
        Option.some.injEq] at hm
      obtain ⟨_, hreplica, _, hballot, _, hid, _, -, _, hdep, rfl⟩ := hm
      exact ⟨replica.inRange hreplica, ballot.inRange hballot, id.inRange hid, weakDep.inRange hdep⟩
    · cases hm

/-- The number of the replica that gives a weak result has 64 bits, and the id is in range. -/
structure WeakReply.InRange (m : WeakReply) : Prop where
  replica : m.replica < UInt64.size
  id : m.id.InRange

theorem WeakReply.faithful : Faithful WeakReply.toJson WeakReply.ofJson? WeakReply.InRange := by
  have replica := faithful_asNat64.demand
  have id := CommandId.faithful.demand
  have value := Value.faithful.demand
  refine .record (by decide) (fun _ => rfl) ?_ ?_ ?_
  · intro m h
    simp only [List.forall_mem_cons]
    exact ⟨replica.writable h.replica, id.writable h.id, value.writable trivial,
      List.forall_mem_nil _⟩
  · intro m h
    simp only [List.map_cons, List.map_nil, replica.read_write h.replica, id.read_write h.id,
      value.read_write trivial]
    rfl
  · intro parts m hm
    split at hm
    · simp only [Option.bind_eq_bind, Option.bind_eq_some_iff, Option.pure_def,
        Option.some.injEq] at hm
      obtain ⟨_, hreplica, _, hid, _, -, rfl⟩ := hm
      exact ⟨replica.inRange hreplica, id.inRange hid⟩
    · cases hm

/-- The body of a message to a client is in range. -/
def ClientMessage.InRange : ClientMessage → Prop
  | .reply m => m.InRange
  | .syncReply m => m.InRange
  | .recordAck m => m.InRange
  | .weakReply m => m.InRange
  | .causalReply m => m.InRange

theorem ClientMessage.faithful :
    Faithful ClientMessage.toJson ClientMessage.ofJson? ClientMessage.InRange where
  writable {m} h := by
    cases m with
    | reply m => exact writable_tagged (by decide) (Reply.faithful.writable h)
    | syncReply m => exact writable_tagged (by decide) (Reply.faithful.writable h)
    | recordAck m => exact writable_tagged (by decide) (RecordAck.faithful.writable h)
    | weakReply m => exact writable_tagged (by decide) (WeakReply.faithful.writable h)
    | causalReply m => exact writable_tagged (by decide) (WeakReply.faithful.writable h)
  read_write {m} h := by
    cases m with
    | reply m => exact Option.map_eq_some_iff.2 ⟨m, Reply.faithful.read_write h, rfl⟩
    | syncReply m => exact Option.map_eq_some_iff.2 ⟨m, Reply.faithful.read_write h, rfl⟩
    | recordAck m => exact Option.map_eq_some_iff.2 ⟨m, RecordAck.faithful.read_write h, rfl⟩
    | weakReply m => exact Option.map_eq_some_iff.2 ⟨m, WeakReply.faithful.read_write h, rfl⟩
    | causalReply m => exact Option.map_eq_some_iff.2 ⟨m, WeakReply.faithful.read_write h, rfl⟩
  inRange {j m} hj := by
    unfold ofJson? at hj
    split at hj
    · obtain ⟨m, hm, rfl⟩ := Option.map_eq_some_iff.1 hj
      exact Reply.faithful.inRange hm
    · obtain ⟨m, hm, rfl⟩ := Option.map_eq_some_iff.1 hj
      exact Reply.faithful.inRange hm
    · obtain ⟨m, hm, rfl⟩ := Option.map_eq_some_iff.1 hj
      exact RecordAck.faithful.inRange hm
    · obtain ⟨m, hm, rfl⟩ := Option.map_eq_some_iff.1 hj
      exact WeakReply.faithful.inRange hm
    · obtain ⟨m, hm, rfl⟩ := Option.map_eq_some_iff.1 hj
      exact WeakReply.faithful.inRange hm
    · cases hj

end ToClients

end WitnessReplication
