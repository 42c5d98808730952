import WitnessReplication.Proofs.Json.Codec
import WitnessReplication.Scenario.Json

/-!
# Scenarios survive being written

The parts of a scenario, each in the range of its numbers, are written without loss and read back
as themselves, and whatever is read is in range; a left out part of a cluster is read as its
default, which is in range too.

An instruction is written with its type in front, and what is read of it is the rest
(`Instruction.ofJson?_toJson`).
-/

namespace WitnessReplication

open Json

theorem Variant.faithful : Faithful Variant.toJson Variant.ofJson? fun _ => True :=
  faithful_asName fun v => by cases v <;> rfl

namespace Scenario

/-- The latencies that a client measured have 64 bits. -/
structure ClientSpec.InRange (c : ClientSpec) : Prop where
  latencies : ∀ latency ∈ c.latencies, latency < UInt64.size

theorem ClientSpec.faithful : Faithful ClientSpec.toJson ClientSpec.ofJson? ClientSpec.InRange := by
  have latencies := faithful_asNat64.list.orElse (List.forall_mem_nil _)
  refine .record (by decide) (fun _ => rfl) ?_ ?_ ?_
  · intro c h
    exact List.forall_mem_singleton.2 (latencies.writable h.latencies)
  · intro c h
    simp only [List.map_cons, List.map_nil, latencies.read_write h.latencies]
    rfl
  · intro parts c hc
    split at hc
    · simp only [Option.bind_eq_bind, Option.bind_eq_some_iff, Option.pure_def,
        Option.some.injEq] at hc
      obtain ⟨_, hlatencies, rfl⟩ := hc
      exact ⟨latencies.inRange hlatencies⟩
    · cases hc

/-- The numbers of a cluster have 64 bits, and its clients are in range. -/
structure ClusterSpec.InRange (c : ClusterSpec) : Prop where
  replicas : c.replicas < UInt64.size
  leader : c.leader < UInt64.size
  clients : ∀ client ∈ c.clients, client.InRange
  batchDelay : ∀ delay ∈ c.batchDelay, delay < UInt64.size
  jitter : ∀ jitter ∈ c.jitter, jitter < UInt64.size
  maxSlotTasks : ∀ tasks ∈ c.maxSlotTasks, tasks < UInt64.size
  timeout : c.timeout < UInt64.size

theorem ClusterSpec.faithful :
    Faithful ClusterSpec.toJson ClusterSpec.ofJson? ClusterSpec.InRange := by
  have replicas := faithful_asNat64.demand
  have leader := faithful_asNat64.orElse (show 0 < UInt64.size by decide)
  have variant : FaithfulField Variant.toJson (orElse .leaderOnly Variant.ofJson?) _ :=
    Variant.faithful.orElse trivial
  have clients := ClientSpec.faithful.list.orElse (List.forall_mem_nil _)
  have batching : FaithfulField .bool (orElse false asBool) _ := faithful_asBool.orElse trivial
  have number := faithful_asNat64.orNone (by simp [ofNat])
  have timeout := faithful_asNat64.orElse (show 5000 < UInt64.size by decide)
  refine .record (by decide) (fun _ => rfl) ?_ ?_ ?_
  · intro c h
    simp only [List.forall_mem_cons]
    exact ⟨replicas.writable h.replicas, leader.writable h.leader, variant.writable trivial,
      clients.writable h.clients, batching.writable trivial, number.writable h.batchDelay,
      number.writable h.jitter, number.writable h.maxSlotTasks, timeout.writable h.timeout,
      List.forall_mem_nil _⟩
  · intro c h
    simp only [List.map_cons, List.map_nil, replicas.read_write h.replicas,
      leader.read_write h.leader, variant.read_write trivial, clients.read_write h.clients,
      batching.read_write trivial, number.read_write h.batchDelay, number.read_write h.jitter,
      number.read_write h.maxSlotTasks, timeout.read_write h.timeout]
    rfl
  · intro parts c hc
    split at hc
    · simp only [Option.bind_eq_bind, Option.bind_eq_some_iff, Option.pure_def,
        Option.some.injEq] at hc
      obtain ⟨_, hreplicas, _, hleader, _, -, _, hclients, _, -, _, hdelay, _, hjitter, _, htasks,
        _, htimeout, rfl⟩ := hc
      exact ⟨replicas.inRange hreplicas, leader.inRange hleader, clients.inRange hclients,
        number.inRange hdelay, number.inRange hjitter, number.inRange htasks,
        timeout.inRange htimeout⟩
    · cases hc

namespace Instruction

/-- The numbers of an instruction have 64 bits, its key with a sign. -/
def InRange : Instruction → Prop
  | .put client key _ | .weakPut client key _ | .causalPut client key _ =>
    client < UInt64.size ∧ InInt64 key
  | .get client key | .weakGet client key | .causalGet client key =>
    client < UInt64.size ∧ InInt64 key
  | .scan client key count => client < UInt64.size ∧ InInt64 key ∧ count < UInt64.size
  | .sleep span => span < UInt64.size
  | .stats => True

/-- A written instruction is read from what follows its type. -/
theorem ofJson?_toJson (i : Instruction) :
    ofJson? i.toJson = ofTyped i.typeName (ofFields i.fields i.values) := by
  cases i <;> rfl

section Readers

variable {client count : Nat} {key : Key} {body : Json} {i : Instruction}

/-- What a write is about is read as it was written. -/
theorem writeOf_ofFields (make : Nat → Key → String → Instruction) (hclient : client < UInt64.size)
    (hkey : InInt64 key) (value : String) :
    writeOf make (ofFields writeFields [.ofNat client, .ofInt key, .ofString value]) =
      some (make client key value) := by
  rw [writeOf, asRecord_ofFields (by decide) rfl]
  simp only [List.map_cons, List.map_nil, faithful_asNat64.demand.read_write hclient,
    faithful_asInt64.demand.read_write hkey, faithful_asString.demand.read_write trivial]
  rfl

theorem exists_of_writeOf {make : Nat → Key → String → Instruction}
    (h : writeOf make body = some i) :
    ∃ client key value, client < UInt64.size ∧ InInt64 key ∧ make client key value = i := by
  obtain ⟨parts, hparts⟩ := exists_of_asRecord h
  split at hparts
  · simp only [Option.bind_eq_bind, Option.bind_eq_some_iff, Option.pure_def,
      Option.some.injEq] at hparts
    obtain ⟨client, hclient, key, hkey, value, -, hmake⟩ := hparts
    exact ⟨client, key, value, faithful_asNat64.demand.inRange hclient,
      faithful_asInt64.demand.inRange hkey, hmake⟩
  · cases hparts

/-- What a read is about is read as it was written. -/
theorem readOf_ofFields (make : Nat → Key → Instruction) (hclient : client < UInt64.size)
    (hkey : InInt64 key) :
    readOf make (ofFields readFields [.ofNat client, .ofInt key]) = some (make client key) := by
  rw [readOf, asRecord_ofFields (by decide) rfl]
  simp only [List.map_cons, List.map_nil, faithful_asNat64.demand.read_write hclient,
    faithful_asInt64.demand.read_write hkey]
  rfl

theorem exists_of_readOf {make : Nat → Key → Instruction} (h : readOf make body = some i) :
    ∃ client key, client < UInt64.size ∧ InInt64 key ∧ make client key = i := by
  obtain ⟨parts, hparts⟩ := exists_of_asRecord h
  split at hparts
  · simp only [Option.bind_eq_bind, Option.bind_eq_some_iff, Option.pure_def,
      Option.some.injEq] at hparts
    obtain ⟨client, hclient, key, hkey, hmake⟩ := hparts
    exact ⟨client, key, faithful_asNat64.demand.inRange hclient,
      faithful_asInt64.demand.inRange hkey, hmake⟩
  · cases hparts

theorem scanOf_ofFields (hclient : client < UInt64.size) (hkey : InInt64 key)
    (hcount : count < UInt64.size) :
    scanOf (ofFields scanFields [.ofNat client, .ofInt key, .ofNat count]) =
      some (.scan client key count) := by
  rw [scanOf, asRecord_ofFields (by decide) rfl]
  simp only [List.map_cons, List.map_nil, faithful_asNat64.demand.read_write hclient,
    faithful_asInt64.demand.read_write hkey, faithful_asNat64.demand.read_write hcount]
  rfl

theorem inRange_of_scanOf (h : scanOf body = some i) : i.InRange := by
  obtain ⟨parts, hparts⟩ := exists_of_asRecord h
  split at hparts
  · simp only [Option.bind_eq_bind, Option.bind_eq_some_iff, Option.pure_def,
      Option.some.injEq] at hparts
    obtain ⟨client, hclient, key, hkey, count, hcount, rfl⟩ := hparts
    exact ⟨faithful_asNat64.demand.inRange hclient, faithful_asInt64.demand.inRange hkey,
      faithful_asNat64.demand.inRange hcount⟩
  · cases hparts

theorem sleepOf_ofFields {span : Nat} (hspan : span < UInt64.size) :
    sleepOf (ofFields sleepFields [.ofNat span]) = some (.sleep span) := by
  rw [sleepOf, asRecord_ofFields (by decide) rfl]
  simp only [List.map_cons, List.map_nil, faithful_asNat64.demand.read_write hspan]
  rfl

theorem inRange_of_sleepOf (h : sleepOf body = some i) : i.InRange := by
  obtain ⟨parts, hparts⟩ := exists_of_asRecord h
  split at hparts
  · simp only [Option.bind_eq_bind, Option.bind_eq_some_iff, Option.pure_def,
      Option.some.injEq] at hparts
    obtain ⟨span, hspan, rfl⟩ := hparts
    exact faithful_asNat64.demand.inRange hspan
  · cases hparts

theorem inRange_of_ofTyped {typeName : String} (h : ofTyped typeName body = some i) :
    i.InRange := by
  unfold ofTyped at h
  split at h
  · obtain ⟨client, key, value, hclient, hkey, rfl⟩ := exists_of_writeOf h
    exact ⟨hclient, hkey⟩
  · obtain ⟨client, key, hclient, hkey, rfl⟩ := exists_of_readOf h
    exact ⟨hclient, hkey⟩
  · exact inRange_of_scanOf h
  · obtain ⟨client, key, value, hclient, hkey, rfl⟩ := exists_of_writeOf h
    exact ⟨hclient, hkey⟩
  · obtain ⟨client, key, hclient, hkey, rfl⟩ := exists_of_readOf h
    exact ⟨hclient, hkey⟩
  · obtain ⟨client, key, value, hclient, hkey, rfl⟩ := exists_of_writeOf h
    exact ⟨hclient, hkey⟩
  · obtain ⟨client, key, hclient, hkey, rfl⟩ := exists_of_readOf h
    exact ⟨hclient, hkey⟩
  · exact inRange_of_sleepOf h
  · obtain ⟨parts, hparts⟩ := exists_of_asRecord h
    exact Option.some.inj hparts ▸ trivial
  · cases h

end Readers

/-- The fields of an instruction have names of their own, the type included. -/
theorem wellNamed_fields (i : Instruction) : WellNamed (⟨"type", .required⟩ :: i.fields) := by
  have hall : ∀ fields ∈ [writeFields, readFields, scanFields, sleepFields, []],
      WellNamed (⟨"type", .required⟩ :: fields) := by decide
  cases i <;> exact hall _ (by simp [fields])

theorem writable_values {i : Instruction} (h : i.InRange) : ∀ value ∈ i.values, value.Writable := by
  have number {n : Nat} (hn : n < UInt64.size) := faithful_asNat64.writable hn
  have integer {k : Int} (hk : InInt64 k) := faithful_asInt64.writable hk
  cases i with
  | put client key value | weakPut client key value | causalPut client key value =>
    simp only [values, List.forall_mem_cons]
    exact ⟨number h.1, integer h.2, .text value, List.forall_mem_nil _⟩
  | get client key | weakGet client key | causalGet client key =>
    simp only [values, List.forall_mem_cons]
    exact ⟨number h.1, integer h.2, List.forall_mem_nil _⟩
  | scan client key count =>
    simp only [values, List.forall_mem_cons]
    exact ⟨number h.1, integer h.2.1, number h.2.2, List.forall_mem_nil _⟩
  | sleep span => exact List.forall_mem_singleton.2 (number h)
  | stats => exact List.forall_mem_nil _

theorem faithful : Faithful toJson ofJson? InRange where
  writable {i} h :=
    writable_ofFields i.wellNamed_fields (List.forall_mem_cons.2 ⟨.text _, writable_values h⟩)
  read_write {i} h := by
    rw [ofJson?_toJson]
    cases i with
    | put client key value => exact writeOf_ofFields _ h.1 h.2 value
    | weakPut client key value => exact writeOf_ofFields _ h.1 h.2 value
    | causalPut client key value => exact writeOf_ofFields _ h.1 h.2 value
    | get client key => exact readOf_ofFields _ h.1 h.2
    | weakGet client key => exact readOf_ofFields _ h.1 h.2
    | causalGet client key => exact readOf_ofFields _ h.1 h.2
    | scan client key count => exact scanOf_ofFields h.1 h.2.1 h.2.2
    | sleep span => exact sleepOf_ofFields h
    | stats => rfl
  inRange {j i} hj := by
    unfold ofJson? at hj
    split at hj
    · cases hj
    · split at hj
      · split at hj
        · exact inRange_of_ofTyped hj
        · cases hj
      · exact inRange_of_ofTyped hj
      · cases hj

end Instruction

/-- The parts of a scenario are in range. -/
structure InRange (s : Scenario) : Prop where
  cluster : s.cluster.InRange
  instructions : ∀ i ∈ s.instructions, i.InRange

theorem faithful : Faithful toJson ofJson? InRange := by
  have cluster := ClusterSpec.faithful.demand
  have instructions := Instruction.faithful.list.demand
  refine .record (by decide) (fun _ => rfl) ?_ ?_ ?_
  · intro s h
    simp only [List.forall_mem_cons]
    exact ⟨cluster.writable h.cluster, instructions.writable h.instructions, List.forall_mem_nil _⟩
  · intro s h
    simp only [List.map_cons, List.map_nil, cluster.read_write h.cluster,
      instructions.read_write h.instructions]
    rfl
  · intro parts s hs
    split at hs
    · simp only [Option.bind_eq_bind, Option.bind_eq_some_iff, Option.pure_def,
        Option.some.injEq] at hs
      obtain ⟨_, hcluster, _, hinstructions, rfl⟩ := hs
      exact ⟨cluster.inRange hcluster, instructions.inRange hinstructions⟩
    · cases hs

end Scenario

end WitnessReplication
