import WitnessReplication.Proofs.Network.Soundness

/-!
# Agreement

Every replica holds the store that the executed part of the leader's order replays to, whatever
is lost, repeated or overtaken on the way. Replicas that have executed equally far therefore hold
the same store.
-/

namespace WitnessReplication.History

variable {config : Config} {bounds : List ReplicaId} {h : History} {r : Replica}

theorem Reachable.follows (hh : h.Reachable config bounds) (hr : r ∈ h.network.replicas) :
    r.Follows h.log := by
  obtain ⟨i, hi⟩ := List.getElem?_of_mem hr
  exact hh.sound.replicas.follows hi

/-- The leader's numbering is the log, every replica's store replays the executed part of it, and
replicas agree as far as both have executed. -/
theorem stores_agree (hh : h.Reachable config bounds) :
    (∀ leader, h.network.replicas[config.leader]? = some leader →
      leader.nextSlot = h.log.length ∧
      (∀ id slot, leader.slot? id = some slot → ∃ q, h.log.request? slot = some q ∧ q.id = id) ∧
      ∀ slot q, h.log.request? slot = some q → leader.slots.contains q.id = true) ∧
    (∀ r ∈ h.network.replicas, r.executed ≤ h.log.length ∧
      r.store = h.log.storeAt r.executed ∧ r.store.applied = r.executed) ∧
    ∀ r ∈ h.network.replicas, ∀ r' ∈ h.network.replicas,
      (h.log.take r.executed <+: h.log.take r'.executed ∨
        h.log.take r'.executed <+: h.log.take r.executed) ∧
      (r.executed = r'.executed → r.store = r'.store) := by
  refine ⟨?_, ?_, ?_⟩
  · intro leader hleader
    have hleads := hh.sound.replicas.leads hleader
    exact ⟨hleads.nextSlot_eq, fun _ _ => hleads.slots_sound, fun _ _ => hleads.slots_complete⟩
  · intro r hr
    have hfollows := hh.follows hr
    refine ⟨hfollows.executed_le, hfollows.store_eq, ?_⟩
    rw [hfollows.store_eq, Log.applied_storeAt hfollows.executed_le]
  · intro r hr r' hr'
    refine ⟨List.prefix_or_prefix_of_prefix (List.take_prefix _ _) (List.take_prefix _ _),
      fun hexec => ?_⟩
    rw [(hh.follows hr).store_eq, (hh.follows hr').store_eq, hexec]

/-- A weak write that is proposed twice takes two slots, of which both replicas execute one. -/
def repeatedWrite : List Network.Action :=
  [.proposeWeak 0 ⟨.put, 1, ⟨[118]⟩⟩, .duplicate 0, .deliver 0, .deliver 0, .deliver 0, .deliver 1,
    .deliver 1]

theorem stores_agree_pair :
    (pair.run repeatedWrite).network.replicas.map Replica.executed = [1, 1] ∧
      (pair.run repeatedWrite).log.length = 2 ∧
      ∀ r ∈ (pair.run repeatedWrite).network.replicas,
        r.store = (pair.run repeatedWrite).log.storeAt r.executed :=
  ⟨by decide +kernel, by decide +kernel, fun r hr =>
    ((stores_agree (reachable_pair.run repeatedWrite)).2.1 r hr).2.1⟩

end WitnessReplication.History
