import WitnessReplication.Proofs.Network.Moments
import WitnessReplication.Proofs.Network.Witnessing

/-!
# The witness of a replica that does not lead

A replica that does not lead refuses a strong command while another strong write of its key is
pending there. It tells from two counters per key, which it raises when it records a command and
lowers when a recorded command executes. If no weak command is repeated, then the counters are
right at every moment: a command whose execution went ahead of its arrival leaves the record as
soon as it enters it, and no command is on record twice.
-/

namespace WitnessReplication

namespace Chronicle

open Network Replica

variable {rule : Rule} {config : Config} {bounds : List ReplicaId} {c c₀ c₁ : Chronicle}
variable {i : ReplicaId} {r : Replica} {before : List Handling} {d : Handling}

/-- A strong write of a key has come to a replica with one of certain messages. -/
def StrongWriteCame (before : List Handling) (i : ReplicaId) (key : Key) (q : Request) : Prop :=
  q.weak = false ∧ q.command.isWrite = true ∧ q.command.key = key ∧
    ∃ d ∈ before, d.replica.id = i ∧ d.message.request? = some q

theorem value?_eq_none_iff {id : CommandId} :
    r.value? id = none ↔ r.values.contains id = false := by
  rw [value?, Std.ExtTreeMap.contains_eq_isSome_getElem?, Option.isSome_eq_false_iff,
    Option.isNone_iff_eq_none]

/-- What had come to a replica by a moment of the run. -/
theorem Moment.got_iff (h : Moment rule config bounds c before d c₀ c₁) {q : Request} :
    c₀.Got i q ↔ ∃ d ∈ before, d.replica.id = i ∧ d.message.request? = some q := by
  simp [Got, Reached, h.handled_eq]

/-- A strong write that has come and has no result is on record. -/
theorem Moment.getElem?_witnessed (h : Moment rule config bounds c before d c₀ c₁)
    (hother : d.replica.id ≠ config.leader) {key : Key} {q : Request}
    (hcame : StrongWriteCame before d.replica.id key q) (hvalue : d.replica.value? q.id = none) :
    d.replica.witnessed[q.id]? = some ⟨q.command, true⟩ := by
  obtain ⟨hstrong, -, -, hcame⟩ := hcame
  have hrecorded := h.reachable.recorded_of_got _ _ h.handles.replica hother q
    (h.got_iff.2 hcame) fun hweak => by simp [hstrong] at hweak
  rw [value?_eq_none_iff] at hvalue
  simpa [Recorded, hvalue, hstrong] using hrecorded

/-- A strong write of a key is counted exactly if one has come and has no result yet. -/
theorem Moment.strongCount_pos_iff (h : Moment .weakOnce config bounds c before d c₀ c₁)
    (hother : d.replica.id ≠ config.leader) (key : Key) :
    0 < d.replica.witness.strongCount key ↔
      ∃ q, StrongWriteCame before d.replica.id key q ∧ d.replica.value? q.id = none := by
  have hr := h.handles.replica
  rw [h.reachable.countsStrong _ _ hr hother, Witnessed.count_pos_iff]
  constructor
  · rintro ⟨id, x, hx, hkind⟩
    obtain ⟨hkey, hwrite, hstrong⟩ := (Witness.isStrongWrite_eq x key).1 hkind
    obtain ⟨q, hgot, -, rfl, rfl⟩ := h.reachable.got_of_witnessed _ _ hr id x hx
    refine ⟨q, ⟨by simpa using hstrong, hwrite, hkey, h.got_iff.1 hgot⟩, ?_⟩
    refine value?_eq_none_iff.2 ((h.reachable.witnesses _ _ hr hother).unexecuted q.id ?_)
    exact Std.ExtTreeMap.mem_iff_isSome_getElem?.2 (by simp [hx])
  · rintro ⟨q, hcame, hvalue⟩
    exact ⟨q.id, _, h.getElem?_witnessed hother hcame hvalue,
      (Witness.isStrongWrite_eq _ key).2 ⟨hcame.2.2.1, hcame.2.1, rfl⟩⟩

/-- Let no weak command be repeated. A replica that does not lead has a witness entry for a key
exactly if a recorded command is on the key; the entry counts the recorded commands on the key and
the strong writes among them, and nothing that is recorded has executed. Whenever the replica gives
a verdict on a strong command, other than that the command is ordered, it refuses exactly if some
other strong write of the key has come to it and has not executed there. -/
theorem follower_witness (hc : c.ReachableBy .weakOnce config bounds)
    (hr : c.network.replicas[i]? = some r) (hother : i ≠ config.leader) :
    (∀ key, (∃ e, r.witness.entry? key = some e) ↔
      ∃ (id : CommandId) (x : Witnessed), r.witnessed[id]? = some x ∧ x.command.key = key) ∧
    (∀ key e, r.witness.entry? key = some e →
      e.slot = (r.witnessed.toList.filter fun x => x.2.command.key = key).length ∧
      e.strongWrites = (r.witnessed.toList.filter fun x =>
        x.2.command.key = key ∧ x.2.command.isWrite ∧ x.2.strong).length) ∧
    (∀ id ∈ r.witnessed, r.value? id = none ∧ ∀ q ∈ c.executed i, q.id ≠ id) ∧
    ∀ before d, before ++ [d] <+: c.handled → d.replica.id = i →
      ∀ client a, .tell client (.recordAck a) ∈ d.effects → a.ok ≠ .ordered →
        ∃ q, d.message.request? = some q ∧ q.weak = false ∧ q.id = a.id ∧
          (a.ok = .refused ↔ ∃ q', q' ≠ q ∧ StrongWriteCame before i q.command.key q' ∧
            d.replica.value? q'.id = none) := by
  have hwitnesses := hc.witnesses i r hr hother
  have hs := hc.reachable.history.sound
  refine ⟨fun key => hwitnesses.tallies.entry_iff, fun key e he => ?_, fun id hid => ?_, ?_⟩
  · have hslot := hwitnesses.tallies.pendingCount_eq key
    have hstrong := hc.countsStrong i r hr hother key
    simp only [Witness.pendingCount, Witness.strongCount, he, Option.map_some, Option.getD_some,
      Witnessed.count, List.countP_eq_length_filter] at hslot hstrong
    refine ⟨hslot, hstrong.trans (congrArg List.length (List.filter_congr fun x _ => ?_))⟩
    rw [Bool.eq_iff_iff, Witness.isStrongWrite_eq, decide_eq_true_iff]
  · have hvalue := hwitnesses.unexecuted id hid
    refine ⟨value?_eq_none_iff.2 hvalue, ?_⟩
    rintro q hq rfl
    obtain ⟨slot, -, hslot⟩ := (hc.reachable.mem_executed_iff_slot hr).1 hq
    rw [(hc.reachable.mem_executed_iff hr (hs.records.request_issued hslot)).1 hq] at hvalue
    simp at hvalue
  · rintro before d hd rfl client a htell hok
    obtain ⟨c₀, c₁, hmoment⟩ := hc.exists_moment hd
    have hs₀ := hmoment.reachable.reachable.history.sound
    obtain ⟨q, hm, hstrong, hnew, -, rfl⟩ := (hmoment.handles.attends hs₀).verdict htell hok
    refine ⟨q, hm, hstrong, rfl, ?_⟩
    have hrefused : (d.replica.witness.check q.command true).ok = .refused ↔
        0 < d.replica.witness.strongCount q.command.key := by
      rw [Witness.ok_check]
      split <;> simp [*]
    rw [hrefused, hmoment.strongCount_pos_iff hother]
    constructor
    · rintro ⟨q', hcame, hvalue⟩
      refine ⟨q', ?_, hcame, hvalue⟩
      rintro rfl
      refine hnew (Std.ExtTreeMap.mem_iff_isSome_getElem?.2 ?_)
      rw [hmoment.getElem?_witnessed hother hcame hvalue]
      rfl
    · rintro ⟨q', -, hcame, hvalue⟩
      exact ⟨q', hcame, hvalue⟩

/-- The second replica gets a strong write of key 1 and then a strong read of it. -/
def readRefused : List Network.Action :=
  [.propose 0 ⟨.put, 1, ⟨[97]⟩⟩, .deliver 1, .propose 1 (.get 1), .deliver 3]

theorem follower_witness_pair :
    ∃ r before d, (pair.run readRefused).network.replicas[1]? = some r ∧
      before ++ [d] = (pair.run readRefused).handled ∧
      (∃ (id : CommandId) (x : Witnessed), r.witnessed[id]? = some x ∧ x.command.key = 1) ∧
      ∃ q', StrongWriteCame before 1 1 q' ∧ d.replica.value? q'.id = none := by
  have hobeys : obeys .weakOnce pair.network readRefused = true := by decide +kernel
  have hreachable : (pair.run readRefused).ReachableBy .weakOnce History.pairConfig [0, 0] :=
    (ReachableBy.start rfl).run hobeys
  have hmap : (pair.run readRefused).network.replicas[1]?.map (fun r =>
      (r.witness.entry? 1).isSome) = some true := by decide +kernel
  obtain ⟨r, hr, hentry⟩ := Option.map_eq_some_iff.1 hmap
  have hlast : (pair.run readRefused).handled.getLast?.map (fun d =>
      (d.replica.id, d.message.request?, d.effects)) = some (1, some ⟨⟨2, 0⟩, .get 1, false⟩,
        [.tell 2 (.recordAck ⟨1, History.pairConfig.ballot, ⟨2, 0⟩, .refused, none⟩)]) := by
    decide +kernel
  obtain ⟨d, hd, hat⟩ := Option.map_eq_some_iff.1 hlast
  obtain ⟨before, hhandled⟩ := List.getLast?_eq_some_iff.1 hd
  obtain ⟨hid, hat⟩ := Prod.mk.inj hat
  obtain ⟨hm, heffects⟩ := Prod.mk.inj hat
  obtain ⟨hentries, -, -, hverdicts⟩ := follower_witness hreachable hr (by decide)
  obtain ⟨q, hq, -, -, hrefused⟩ := hverdicts before d (hhandled ▸ List.prefix_rfl) hid _ _
    (heffects ▸ List.mem_singleton_self _) (by simp)
  obtain rfl := Option.some.inj (hm.symm.trans hq)
  obtain ⟨q', -, hcame, hvalue⟩ := hrefused.1 rfl
  exact ⟨r, before, d, hr, hhandled.symm,
    (hentries 1).1 (Option.isSome_iff_exists.1 hentry), q', hcame, hvalue⟩

end Chronicle

end WitnessReplication
