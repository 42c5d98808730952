import WitnessReplication.Proofs.Network.Witnessing
import WitnessReplication.Proofs.Overlay
import WitnessReplication.Proofs.Surfacing

/-!
# Weak dependencies

Where every replica takes weak commands, the verdict of a replica on a strong command may name a
weak write that the command depends on. The witness has room for one such write per key. So the
verdict names the weak write of the key that came last, as long as that has not executed
(`Chronicle.weak_dependency`), but once that has executed it names none, even if an earlier one has
not (`Chronicle.not_weak_dependency_reported`).
-/

namespace WitnessReplication

namespace Chronicle

open Network Replica

variable {config : Config} {bounds : List ReplicaId} {c c' : Chronicle} {i : ReplicaId}
variable {r : Replica} {m : ReplicaMessage} {q : Request} {key : Key}

/-- The requests that have come to a replica, in the order in which they did. -/
def came (c : Chronicle) (i : ReplicaId) : List Request :=
  (c.own i).filterMap fun d => d.message.request?

/-- The weak write of a key that came to a replica last. -/
def latestWeakWrite (c : Chronicle) (i : ReplicaId) (key : Key) : Option Request :=
  ((c.came i).filter (Request.isWeakWrite key)).getLast?

theorem mem_came : q ∈ c.came i ↔ c.Got i q := by
  simp [came, Got, Reached, mem_own, and_assoc]

theorem Apart.latestWeakWrite_eq (h : c.Apart config i c') (key : Key) :
    c'.latestWeakWrite i key = c.latestWeakWrite i key := by
  rw [latestWeakWrite, latestWeakWrite, came, came, h.own_eq]

theorem Handles.latestWeakWrite_eq (h : c.Handles i r m c') (hs : c.Sound config) (key : Key) :
    c'.latestWeakWrite i key =
      ((m.request?.filter (Request.isWeakWrite key)).or (c.latestWeakWrite i key)) := by
  rw [latestWeakWrite, latestWeakWrite, came, came, h.own_eq hs, List.filterMap_append,
    List.filter_append, List.getLast?_append]
  cases hq : m.request? with
  | none => simp [hq]
  | some q =>
      cases hkind : q.isWeakWrite key <;> simp [hq, hkind, Option.filter]

/-- The latest weak write of a key is a weak write of it that has come. -/
theorem got_of_latestWeakWrite (hq : c.latestWeakWrite i key = some q) :
    c.Got i q ∧ q.isWeakWrite key = true := by
  obtain ⟨hmem, hkind⟩ := List.mem_filter.1 (List.mem_of_getLast? hq)
  exact ⟨mem_came.1 hmem, hkind⟩

/-- Where every replica takes weak commands and none is repeated, the witness of a replica that does
not lead has each key's latest weak write while that is on record. -/
theorem ReachableBy.surfaces (hc : c.ReachableBy .weakOnce config bounds)
    (hvariant : config.variant = .everyReplica) :
    ∀ (i : ReplicaId) r, c.network.replicas[i]? = some r → i ≠ config.leader →
      r.witness.Surfaces (c.latestWeakWrite i) r.witnessed := by
  refine hc.relates (I := fun c i known w => w.Surfaces (c.latestWeakWrite i) known)
    (fun n i => Witness.surfaces_follower) (fun c c' i known w hapart hold => ?_)
    (fun c i known w id x htallies hold hx => hold.retire htallies hx)
    (fun c c' i r m hc h hother hq hold => ?_) fun c c' i r m q hc h hother hq hnew hold => ?_
  · rwa [funext hapart.latestWeakWrite_eq]
  · -- a weak write would have been recorded
    have hs := hc.reachable.history.sound
    have hnone : ∀ key, m.request?.filter (Request.isWeakWrite key) = none := by
      intro key
      refine Option.eq_none_iff_forall_ne_some.2 fun q hkind => ?_
      obtain ⟨hm, hkind⟩ := Option.filter_eq_some_iff.1 hkind
      have hweak := (Request.isWeakWrite_iff.1 hkind).1
      simp [records?, hm, hweak, (h.attends hs).config_eq, hvariant] at hq
    have hsame : c'.latestWeakWrite i = c.latestWeakWrite i := by
      funext key
      rw [h.latestWeakWrite_eq hs, hnone, Option.none_or]
    rwa [hsame]
  · have hs := hc.reachable.history.sound
    have hm := (request?_of_records? hq).1
    refine hold.record (fun key => ?_) fun key q' hq' hid => ?_
    · rw [h.latestWeakWrite_eq hs, hm]
      cases hkind : q.isWeakWrite key <;> simp [Option.filter, hkind]
    · exact hs.records.issued_unique (hc.reachable.got_issued (got_of_latestWeakWrite hq').1)
        (h.request_issued hs hm) hid

/-- Let every replica take weak commands, and let none be repeated. At a replica that does not lead
the verdict on a strong command is the same whether the command is recorded or only checked, and it
names a weak dependency exactly if the weak write of the command's key that came to the replica last
has not executed there: that write. So whatever it names is a weak write of the key that has come to
the replica and has not executed there. -/
theorem weak_dependency (hc : c.ReachableBy .weakOnce config bounds)
    (hvariant : config.variant = .everyReplica) (hr : c.network.replicas[i]? = some r)
    (hother : i ≠ config.leader) (id : CommandId) (command : Command) :
    (r.witness.record id command true).2 = r.witness.check command true ∧
    (∀ dep, (r.witness.check command true).weakDep = some dep ↔
      ∃ q, c.latestWeakWrite i command.key = some q ∧ q ∉ c.executed i ∧ q.id = dep) ∧
    ∀ dep, (r.witness.check command true).weakDep = some dep →
      ∃ q, c.Got i q ∧ q.weak = true ∧ q.command.isWrite = true ∧ q.command.key = command.key ∧
        q ∉ c.executed i ∧ q.id = dep := by
  have hreported : ∀ dep, (r.witness.check command true).weakDep = some dep ↔
      ∃ q, c.latestWeakWrite i command.key = some q ∧ q ∉ c.executed i ∧ q.id = dep := by
    intro dep
    rw [Witness.weakDep_check, (hc.surfaces hvariant i r hr hother).pendingWeak_eq]
    simp only [Option.map_map, Option.map_eq_some_iff, Option.filter_eq_some_iff, and_assoc]
    refine exists_congr fun q => and_congr_right fun hq => and_congr_left fun hid => ?_
    obtain ⟨hgot, hkind⟩ := got_of_latestWeakWrite hq
    have hunexecuted : q ∉ c.executed i → r.witnessed.contains q.id = true := by
      intro hout
      have hx := (hc.witnessed_iff hr hother).2 ⟨q, hgot, fun _ => hvariant, hout, rfl, rfl⟩
      rw [Std.ExtTreeMap.contains_eq_isSome_getElem?, hx]
      rfl
    refine ⟨fun hmem hexecuted => ?_, hunexecuted⟩
    have hvalue := (hc.witnesses i r hr hother).unexecuted q.id (by simpa using hmem)
    rw [(hc.reachable.mem_executed_iff hr (hc.reachable.got_issued hgot)).1 hexecuted] at hvalue
    simp at hvalue
  refine ⟨r.witness.verdict_record id command true, hreported, fun dep hdep => ?_⟩
  obtain ⟨q, hq, hunexecuted, hid⟩ := (hreported dep).1 hdep
  obtain ⟨hgot, hkind⟩ := got_of_latestWeakWrite hq
  obtain ⟨hweak, hwrite, hkey⟩ := Request.isWeakWrite_iff.1 hkind
  exact ⟨q, hgot, hweak, hwrite, hkey, hunexecuted, hid⟩

/-- Clients 1 and 2 both write key 1 weakly, and the second replica gets the writes in this order. -/
def weakWritesCome : List Network.Action :=
  [.proposeWeak 0 ⟨.put, 1, ⟨[97]⟩⟩, .proposeWeak 1 ⟨.put, 1, ⟨[98]⟩⟩, .deliver 1, .deliver 2]

theorem weak_dependency_eagerBound :
    ∃ q, (eagerBound.run weakWritesCome).latestWeakWrite 1 1 = some q ∧
      q ∉ (eagerBound.run weakWritesCome).executed 1 ∧ q.id = ⟨2, 0⟩ := by
  have hmap : (eagerBound.run weakWritesCome).network.replicas[1]?.map (fun r =>
      (r.witness.check (.get 1) true).weakDep) = some (some ⟨2, 0⟩) := by decide +kernel
  obtain ⟨r, hr, hdep⟩ := Option.map_eq_some_iff.1 hmap
  have hobeys : obeys .weakOnce eagerBound.network weakWritesCome = true := by decide +kernel
  have hreachable : (eagerBound.run weakWritesCome).ReachableBy .weakOnce eagerConfig [1, 1] :=
    (ReachableBy.start rfl).run hobeys
  obtain ⟨-, hreported, -⟩ :=
    weak_dependency hreachable rfl hr (by decide) ⟨2, 1⟩ (.get 1)
  exact (hreported _).1 hdep

/-- The write of client 2 then gets the first slot and executes at the second replica. -/
def laterWriteExecutes : List Network.Action :=
  weakWritesCome ++ [.deliver 1, .deliver 4, .deliver 4, .deliver 4]

/-- A verdict may name no weak dependency although a weak write of the key has come to the replica
and has not executed there, even if no message is repeated. -/
theorem not_weak_dependency_reported :
    ¬∀ (config : Config) (bounds : List ReplicaId) (c : Chronicle) (i : ReplicaId) (r : Replica)
        (command : Command), c.ReachableBy .unrepeated config bounds →
        config.variant = .everyReplica → c.network.replicas[i]? = some r → i ≠ config.leader →
        ((∃ dep, (r.witness.check command true).weakDep = some dep) ↔
          ∃ q, c.Got i q ∧ q.weak = true ∧ q.command.isWrite = true ∧
            q.command.key = command.key ∧ q ∉ c.executed i) := by
  intro hreported
  have hobeys : obeys .unrepeated eagerBound.network laterWriteExecutes = true := by decide +kernel
  have hreachable : (eagerBound.run laterWriteExecutes).ReachableBy .unrepeated eagerConfig [1, 1] :=
    (ReachableBy.start rfl).run hobeys
  have hmap : (eagerBound.run laterWriteExecutes).network.replicas[1]?.map (fun r =>
      (r.witness.check (.get 1) true).weakDep) = some none := by decide +kernel
  obtain ⟨r, hr, hdep⟩ := Option.map_eq_some_iff.1 hmap
  have hcame : lateWrite ∈ (eagerBound.run laterWriteExecutes).came 1 := by decide +kernel
  have hunexecuted : lateWrite ∉ (eagerBound.run laterWriteExecutes).executed 1 := by
    decide +kernel
  obtain ⟨dep, hsome⟩ := (hreported _ _ _ 1 r (.get 1) hreachable rfl hr (by decide)).2
    ⟨lateWrite, mem_came.1 hcame, rfl, rfl, rfl, hunexecuted⟩
  rw [hdep] at hsome
  simp at hsome

end Chronicle

end WitnessReplication
