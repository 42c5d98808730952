import WitnessReplication.Proofs.Network.Reporting

/-!
# Integrity

The leader gives out slots one after another, each to a command that some client issued, and a
strong command gets one slot at most, whatever is lost or repeated. No slot is lost: the leader
keeps its command and its certificate until it executes. Every replica executes the slots in
order, each once, so that it executes no strong command twice.
-/

namespace WitnessReplication

variable {log : Log} {issued : List Request}

/-- Strong commands with different slots have different ids. -/
theorem Log.Records.pairwise_strong (h : log.Records issued) :
    log.Pairwise fun a a' => a.weak = false → a'.weak = false → a.id ≠ a'.id := by
  rw [List.pairwise_iff_getElem]
  intro slot slot' hslot hslot' hlt hstrong _ hid
  have hq := Log.request?_of_getElem? (List.getElem?_eq_getElem hslot)
  have hq' := Log.request?_of_getElem? (List.getElem?_eq_getElem hslot')
  have hsame : slot = slot' := h.slot_unique hq hq' hid hstrong
  exact Nat.ne_of_lt hlt hsame

/-- The announcements of a log are of the slots from zero on. -/
theorem Log.slots_announcements (log : Log) :
    (log.mapIdx Assignment.announcement).map Accept.slot = List.range log.length := by
  apply List.ext_getElem
  · simp
  · intro slot _ _
    simp [Assignment.announcement, Replica.acceptFor]

namespace Chronicle

open Network Replica

variable {config : Config} {bounds : List ReplicaId} {c : Chronicle} {leader : Replica}

/-- What the leader knows of a slot that it has announced. -/
theorem Reachable.announced (hc : c.Reachable config bounds)
    (hleader : c.network.replicas[config.leader]? = some leader) {a : Accept}
    (ha : a ∈ c.announcements config.leader) :
    ∃ q, c.log.request? a.slot = some q ∧ a.Assigns a.slot q ∧
      (q.weak = false → leader.slot? q.id = some a.slot) ∧
      leader.Carries a.slot fun s => s.Directs q := by
  rw [hc.reports.announcements_eq] at ha
  obtain ⟨slot, hslot, rfl⟩ := List.mem_mapIdx.1 ha
  have hq := Log.request?_of_getElem? (List.getElem?_eq_getElem hslot)
  refine ⟨_, hq, ⟨rfl, rfl, rfl, rfl⟩, hc.history.sound.slot_eq hleader hq, ?_⟩
  obtain ⟨r, hr, hcarries⟩ := hc.directed.leader slot _ hq
  obtain rfl : r = leader := Option.some.inj (hr.symm.trans hleader)
  exact hcarries

/-- No strong command is announced twice. -/
theorem Reachable.nodup_announced (hc : c.Reachable config bounds) :
    (((c.announcements config.leader).filter fun a => !a.weak).map Accept.id).Nodup := by
  rw [hc.reports.announcements_eq, List.Nodup, List.pairwise_map, List.pairwise_filter,
    List.pairwise_iff_getElem]
  intro slot slot' hslot hslot' hlt
  rw [List.length_mapIdx] at hslot hslot'
  have hpair := List.pairwise_iff_getElem.1 hc.history.sound.records.pairwise_strong _ _ hslot
    hslot' hlt
  simpa [Assignment.announcement, acceptFor] using hpair

/-- No replica executes a strong command twice. -/
theorem Reachable.nodup_executed (hc : c.Reachable config bounds) {i : ReplicaId} {r : Replica}
    (hr : c.network.replicas[i]? = some r) :
    (((c.executed i).filter fun q => !q.weak).map Request.id).Nodup := by
  rw [hc.executed_eq hr, List.Nodup, List.pairwise_map, List.pairwise_filter, List.pairwise_map]
  have hpair := hc.history.sound.records.pairwise_strong.sublist
    (List.take_sublist r.executed c.log)
  exact hpair.imp fun h hstrong hstrong' => h (by simpa using hstrong) (by simpa using hstrong')

/-- The slots that the leader has given out are those below its next one, each of one issued
command that alone has its id. A strong command has one slot, by which the leader knows it, and
every slot that the leader has not executed is under way with its command and its certificate. No
other replica gives out slots. Every replica has executed the slots below where it is in order,
each once, its store is what their commands make of the empty one, and no strong command is among
them twice. -/
theorem integrity (hc : c.Reachable config bounds) :
    (∀ leader, c.network.replicas[config.leader]? = some leader →
      (c.announcements config.leader).map Accept.slot = List.range leader.nextSlot ∧
      ∀ a ∈ c.announcements config.leader, ∃ q ∈ c.issued, a.Assigns a.slot q ∧
        (∀ q' ∈ c.issued, q'.id = q.id → q' = q) ∧
        (q.weak = false → leader.slot? q.id = some a.slot) ∧
        (leader.executed ≤ a.slot → ∃ s, leader.live[a.slot]? = some s ∧ s.Directs q)) ∧
    (((c.announcements config.leader).filter fun a => !a.weak).map Accept.id).Nodup ∧
    (∀ i : ReplicaId, i ≠ config.leader → c.announcements i = []) ∧
    ∀ (i : ReplicaId) r, c.network.replicas[i]? = some r →
      c.executions i = List.range r.executed ∧ r.executed ≤ (c.announcements config.leader).length ∧
      r.store = Store.empty.executeAll ((c.executed i).map Request.command) ∧
      (((c.executed i).filter fun q => !q.weak).map Request.id).Nodup := by
  have hsound := hc.history.sound
  have hannouncements := hc.reports.announcements_eq
  refine ⟨?_, hc.nodup_announced, hc.reports.announcements_other, ?_⟩
  · intro leader hleader
    have hleads := hsound.replicas.leads hleader
    constructor
    · rw [hannouncements, Log.slots_announcements, hleads.nextSlot_eq]
    · intro a ha
      obtain ⟨q, hq, hassigns, hslot, hcarries⟩ := hc.announced hleader ha
      have hissued := hsound.records.request_issued hq
      refine ⟨q, hissued, hassigns, ?_, hslot, ?_⟩
      · exact fun q' hq' hid => hsound.records.issued_unique hq' hissued hid
      · intro hexec
        rcases hcarries with hlt | hlive
        · exact absurd hlt (Nat.not_lt.2 hexec)
        · exact hlive
  · intro i r hr
    have hfollows := hsound.replicas.follows hr
    refine ⟨hc.reports.executions_eq i r hr, ?_, ?_, hc.nodup_executed hr⟩
    · rw [hannouncements, List.length_mapIdx]
      exact hfollows.executed_le
    · rw [hc.executed_eq hr, List.map_map]
      exact hfollows.store_eq

/-- Client 1 writes key 1; its proposal comes to the leader three times, the last time when the
leader has executed it. -/
def writeProposedThrice : List Network.Action :=
  [.propose 0 ⟨.put, 1, ⟨[118]⟩⟩, .duplicate 0, .duplicate 0, .deliver 0, .deliver 1, .deliver 3,
    .deliver 3, .deliver 1]

theorem integrity_pair :
    ((pair.run writeProposedThrice).announcements 0).map Accept.slot = [0] ∧
      (pair.run writeProposedThrice).executions 0 = [0] := by
  have hleader : ((pair.run writeProposedThrice).network.replicas[0]?.map fun r =>
      (r.nextSlot, r.executed)) = some (1, 1) := by decide +kernel
  obtain ⟨leader, hleader, hat⟩ := Option.map_eq_some_iff.1 hleader
  obtain ⟨hnext, hexec⟩ := Prod.mk.inj hat
  obtain ⟨hleads, -, -, hreplicas⟩ := integrity (reachable_pair.run writeProposedThrice)
  have hslots := (hleads leader hleader).1
  have hexecutions := (hreplicas 0 leader hleader).1
  rw [hnext] at hslots
  rw [hexec] at hexecutions
  exact ⟨hslots, hexecutions⟩

end Chronicle

end WitnessReplication
