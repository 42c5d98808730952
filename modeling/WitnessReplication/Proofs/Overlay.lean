import WitnessReplication.Proofs.Network.Remembering
import WitnessReplication.Proofs.RepeatedWeak

/-!
# Remembered writes that have executed

A replica remembers a client's latest write to a key until it executes, and answers the client's
reads with it. Where every replica takes weak commands, a weak write may reach a replica that does
not lead only after its slot has executed there. It is then remembered all the same, since
nothing tests for this, and nothing forgets it but a later write of that client. The client's
reads at that replica return it from then on, whatever has been written after it.

At the leader, and where only the leader takes weak commands, no remembered write has executed.
-/

namespace WitnessReplication

namespace Chronicle

open Network Replica

variable {config : Config} {bounds : List ReplicaId} {c : Chronicle} {i : ReplicaId} {r : Replica}

/-- Where no weak command is repeated, the leader remembers no write that it has executed. -/
theorem ReachableBy.leader_unexecuted (hc : c.ReachableBy .weakOnce config bounds)
    (hr : c.network.replicas[config.leader]? = some r) {key : ClientKey} {write : PendingWrite}
    (hwrite : r.pendingWrites[key]? = some write) {q : Request} (hq : q ∈ c.issued)
    (hid : q.id = ⟨key.client, write.seq⟩) : q ∉ c.executed config.leader := by
  have hs := hc.reachable.history.sound
  intro hexecuted
  obtain ⟨slot, hlt, hslot⟩ := (hc.reachable.mem_executed_iff_slot hr).1 hexecuted
  obtain ⟨later, q', hlater, hle, hid', -⟩ := (hs.replicas.leads hr).pending_sound hwrite
  obtain rfl := hs.records.issued_unique (hs.records.request_issued hlater) hq (hid'.trans hid.symm)
  obtain rfl := hc.slot_unique hslot hlater
  exact Nat.lt_irrefl _ (Nat.lt_of_lt_of_le hlt hle)

/-- A write that a replica remembers is one that its client has issued, and the replica has
executed it only if it reached the replica after that. Neither the leader, nor any replica where
only the leader takes weak commands, remembers a write that it has executed. A later read of the
client at the replica is answered with the remembered write; where it has not executed, no write
that the replica has executed is in a later slot. -/
theorem pending_write (hc : c.ReachableBy .weakOnce config bounds)
    (hr : c.network.replicas[i]? = some r) {key : ClientKey} {write : PendingWrite}
    (hwrite : r.pendingWrites[key]? = some write) :
    ∃ q ∈ c.issued, q.id = ⟨key.client, write.seq⟩ ∧ q.command.Writes key.key write.value ∧
      (q ∈ c.executed i ↔ c.Reached i q fun before => before.values.contains q.id = true) ∧
      (i = config.leader ∨ config.variant = .leaderOnly → q ∉ c.executed i) ∧
      (∀ id command strong, id.client = key.client → write.seq < id.seq → command.op = .get →
        command.key = key.key → r.speculate id command strong = write.value) ∧
      (q ∉ c.executed i → ∀ slot, c.log.request? slot = some q → r.executed ≤ slot) := by
  have hreachable := hc.reachable
  have hs := hreachable.history.sound
  obtain ⟨q, hq, hid, hwrites, ⟨d, hd, hdi, hdm, hremembers⟩, hlate⟩ :=
    hreachable.keepsReached i r hr key write hwrite
  refine ⟨q, hq, hid, hwrites, ⟨?_, ?_⟩, ?_, ?_, ?_⟩
  · exact fun hexecuted => hlate ((hreachable.mem_executed_iff hr hq).1 hexecuted)
  · rintro ⟨d', hd', hdi', -, hvalue⟩
    obtain ⟨r', hr', hkept⟩ := (hreachable.lasts d' hd').now
    obtain rfl : r = r' := Option.some.inj (hr.symm.trans (hdi' ▸ hr'))
    exact (hreachable.mem_executed_iff hr hq).2 (hkept q.id hvalue)
  · intro hwhere
    by_cases hleader : i = config.leader
    · subst hleader
      exact hc.leader_unexecuted hr hwrite hq hid
    · -- where only the leader takes weak commands, no other replica remembers any write
      have hconfig := (hreachable.lasts d hd).config_eq
      have hfollower : d.replica.isLeader = false := by
        rw [Replica.isLeader, hconfig, Config.isLeader, hdi]
        exact decide_eq_false (Ne.symm hleader)
      simp [remembers, hfollower, hconfig, hwhere.resolve_left hleader] at hremembers
  · intro id command strong hclient hlt hop hkey
    have hown : r.ownWrite? id command.key = some write.value := by
      simp [ownWrite?, hclient, hkey, hwrite, hlt]
    simp [speculate, hop, hown]
  · intro hunexecuted slot hslot
    refine Nat.le_of_not_lt fun hlt => hunexecuted ?_
    exact (hreachable.mem_executed_iff_slot hr).2 ⟨slot, hlt, hslot⟩

/-- Two replicas that both take weak commands, and two clients that listen to the second one. -/
def eagerBound : Chronicle :=
  .start ⟨[.initial 0 eagerConfig, .initial 1 eagerConfig],
    [{ id := 1, bound := 1, config := eagerConfig },
      { id := 2, bound := 1, config := eagerConfig }], []⟩

/-- Client 1 writes key 1 weakly. The write reaches the second replica when that has executed it;
then that executes the write of client 2. -/
def writeReachesLate : List Network.Action :=
  [.proposeWeak 0 ⟨.put, 1, ⟨[97]⟩⟩, .deliver 0, .deliver 2, .deliver 2, .deliver 2, .deliver 0,
    .propose 1 ⟨.put, 1, ⟨[98]⟩⟩, .deliver 2, .deliver 4, .deliver 4, .deliver 5]

/-- The weak write of client 1. -/
def lateWrite : Request := ⟨⟨1, 0⟩, ⟨.put, 1, ⟨[97]⟩⟩, true⟩

theorem pending_write_eagerBound :
    lateWrite ∈ (eagerBound.run writeReachesLate).executed 1 ∧
      (eagerBound.run writeReachesLate).Reached 1 lateWrite
        fun before => before.values.contains lateWrite.id = true := by
  have hmap : (eagerBound.run writeReachesLate).network.replicas[1]?.map (fun r =>
      r.pendingWrites[ClientKey.mk 1 1]?) = some (some ⟨0, ⟨[97]⟩⟩) := by decide +kernel
  obtain ⟨r, hr, hwrite⟩ := Option.map_eq_some_iff.1 hmap
  have hobeys : obeys .weakOnce eagerBound.network writeReachesLate = true := by decide +kernel
  have hreachable : (eagerBound.run writeReachesLate).ReachableBy .weakOnce eagerConfig [1, 1] :=
    (ReachableBy.start rfl).run hobeys
  obtain ⟨q, hq, hid, -, hlate, -⟩ := pending_write hreachable hr hwrite
  have hissued : (eagerBound.run writeReachesLate).issued =
      [lateWrite, ⟨⟨2, 0⟩, ⟨.put, 1, ⟨[98]⟩⟩, false⟩] := by decide +kernel
  obtain rfl : q = lateWrite := by
    rw [hissued] at hq
    rcases List.mem_cons.1 hq with rfl | hq
    · rfl
    · obtain rfl := List.mem_singleton.1 hq
      simp at hid
  have hexecuted : lateWrite ∈ (eagerBound.run writeReachesLate).executed 1 := by decide +kernel
  exact ⟨hexecuted, hlate.1 hexecuted⟩

/-- A remembered write may have executed, although no message is repeated, and a read may be
answered with it although the replica has executed a later write of another value. -/
theorem not_pending_write_unexecuted :
    (¬∀ (config : Config) (bounds : List ReplicaId) (c : Chronicle) (i : ReplicaId) (r : Replica)
        (key : ClientKey) (write : PendingWrite), c.ReachableBy .unrepeated config bounds →
        c.network.replicas[i]? = some r → r.pendingWrites[key]? = some write →
        ∀ q ∈ c.executed i, q.id ≠ ⟨key.client, write.seq⟩) ∧
    ¬∀ (config : Config) (bounds : List ReplicaId) (c : Chronicle) (i : ReplicaId) (r : Replica)
        (id : CommandId) (own newer : Request) (slot slot' : Slot) (key : Key)
        (value value' : Value), c.ReachableBy .unrepeated config bounds →
        c.network.replicas[i]? = some r → c.log.request? slot = some own →
        c.log.request? slot' = some newer → own.id.client = id.client →
        own.command.Writes key value → newer.command.Writes key value' → value ≠ value' →
        slot < slot' → slot' < r.executed → r.speculate id (.get key) false ≠ value := by
  have hobeys : obeys .unrepeated eagerBound.network writeReachesLate = true := by decide +kernel
  have hreachable : (eagerBound.run writeReachesLate).ReachableBy .unrepeated eagerConfig [1, 1] :=
    (ReachableBy.start rfl).run hobeys
  have hmap : (eagerBound.run writeReachesLate).network.replicas[1]?.map (fun r =>
      (r.pendingWrites[ClientKey.mk 1 1]?, r.executed, r.speculate ⟨1, 1⟩ (.get 1) false)) =
        some (some ⟨0, ⟨[97]⟩⟩, 2, ⟨[97]⟩) := by decide +kernel
  obtain ⟨r, hr, hat⟩ := Option.map_eq_some_iff.1 hmap
  obtain ⟨hwrite, hat⟩ := Prod.mk.inj hat
  obtain ⟨hexec, hspeculate⟩ := Prod.mk.inj hat
  constructor
  · intro hunexecuted
    exact hunexecuted _ _ _ 1 r ⟨1, 1⟩ ⟨0, ⟨[97]⟩⟩ hreachable hr hwrite lateWrite
      (by decide +kernel) rfl
  · intro hnever
    exact hnever _ _ _ 1 r ⟨1, 1⟩ lateWrite ⟨⟨2, 0⟩, ⟨.put, 1, ⟨[98]⟩⟩, false⟩ 0 1 1 ⟨[97]⟩ ⟨[98]⟩
      hreachable hr (by decide +kernel) (by decide +kernel) rfl rfl rfl (by decide) (by decide)
      (by rw [hexec]; decide) hspeculate

end Chronicle

end WitnessReplication
