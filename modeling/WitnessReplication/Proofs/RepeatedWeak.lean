import WitnessReplication.Proofs.Network.Copies
import WitnessReplication.Proofs.Network.Reporting

/-!
# Repeated weak commands

A message may come twice. A strong command that comes again is passed over, but a weak one is
taken up as if it were new: the leader gives each copy a slot, every replica executes each of
these slots, and where every replica takes weak commands the others count each copy as pending.
A copy that is late may therefore overwrite a later write.
-/

namespace WitnessReplication

namespace Chronicle

open Network Replica

variable {config : Config} {bounds : List ReplicaId} {c c' : Chronicle} {q : Request}

/-- A weak command has a slot for each copy of it that the leader has handled, and a replica
executes it no more often than that, and just as often once it has executed every slot. One more
copy takes one more slot at the leader, which then knows the command by that slot; at any other
replica it takes no slot, and it counts as pending on its key where every replica takes weak
commands, unless the replica has executed the command. -/
theorem weak_copies (hc : c.Reachable config bounds) (hweak : q.weak = true) :
    (c.log.map Assignment.toRequest).count q = c.copies config.leader q ∧
    ∀ (i : ReplicaId) r, c.network.replicas[i]? = some r →
      (c.executed i).count q ≤ c.copies config.leader q ∧
      (r.executed = c.log.length → (c.executed i).count q = c.copies config.leader q) ∧
      ∀ m : ReplicaMessage, m.request? = some q →
        (i = config.leader → (r.handle m).1.nextSlot = r.nextSlot + 1 ∧
          (r.handle m).1.slot? q.id = some r.nextSlot) ∧
        (i ≠ config.leader →
          (r.handle m).1.nextSlot = r.nextSlot ∧ (r.handle m).1.slots = r.slots ∧
          ∀ key, (r.handle m).1.witness.pendingCount key = r.witness.pendingCount key +
            if config.variant = .everyReplica ∧ q.command.key = key ∧
              r.values.contains q.id = false then 1 else 0) := by
  have hsound := hc.history.sound
  have hcount := hc.count_copies hweak
  refine ⟨hcount, fun i r hr => ?_⟩
  have hexecuted := hc.executed_eq hr
  refine ⟨?_, ?_, fun m hm => ⟨?_, ?_⟩⟩
  · rw [hexecuted, ← hcount]
    exact ((List.take_sublist r.executed c.log).map _).count_le q
  · intro hall
    rw [hexecuted, hall, List.take_length, hcount]
  · rintro rfl
    exact (hsound.replicas.leads hr).handle_weak_numbering hm hweak
  · intro hother
    have hfollower : r.isLeader = false := by
      rw [hsound.replicas.isLeader_eq hr]
      exact decide_eq_false hother
    rw [← hsound.replicas.config_eq hr]
    exact handle_weak_pending hfollower hm hweak

/-- One replica, which leads. -/
def singleConfig : Config := { replicas := 1, leader := 0 }

/-- One replica and one client before the first action. -/
def single : Chronicle :=
  .start ⟨[.initial 0 singleConfig], [{ id := 1, bound := 0, config := singleConfig }], []⟩

theorem reachable_single : single.Reachable singleConfig [0] := .start rfl

/-- A weak write of key 1 comes twice, and a strong one in between. -/
def writeOverwritten : List Network.Action :=
  [.proposeWeak 0 ⟨.put, 1, ⟨[97]⟩⟩, .duplicate 0, .deliver 0, .propose 0 ⟨.put, 1, ⟨[98]⟩⟩,
    .deliver 2, .deliver 0]

theorem weak_copies_single :
    (single.run writeOverwritten).copies 0 ⟨⟨1, 0⟩, ⟨.put, 1, ⟨[97]⟩⟩, true⟩ = 2 ∧
      ((single.run writeOverwritten).log.map Assignment.toRequest).count
        ⟨⟨1, 0⟩, ⟨.put, 1, ⟨[97]⟩⟩, true⟩ = 2 := by
  have hcopies : (single.run writeOverwritten).copies 0
      ⟨⟨1, 0⟩, ⟨.put, 1, ⟨[97]⟩⟩, true⟩ = 2 := by decide +kernel
  exact ⟨hcopies, (weak_copies (reachable_single.run writeOverwritten) rfl).1.trans hcopies⟩

/-- Two replicas that both take weak commands. -/
def eagerConfig : Config := { replicas := 2, leader := 0, variant := .everyReplica }

/-- Two such replicas and one client before the first action. -/
def eagerPair : Chronicle :=
  .start ⟨[.initial 0 eagerConfig, .initial 1 eagerConfig],
    [{ id := 1, bound := 0, config := eagerConfig }], []⟩

theorem reachable_eagerPair : eagerPair.Reachable eagerConfig [0] := .start rfl

/-- A weak write of key 1 comes to the second replica once, and once more is in flight. -/
def writeWitnessed : List Network.Action :=
  [.proposeWeak 0 ⟨.put, 1, ⟨[97]⟩⟩, .duplicate 1, .deliver 1]

/-- A weak command may have two slots, may execute twice, may get another slot when it comes again,
and may then count as pending once more. -/
theorem not_weak_ignored :
    (¬∀ (config : Config) (bounds : List ReplicaId) (c : Chronicle) (q : Request),
        c.Reachable config bounds → q.weak = true →
        (c.log.map Assignment.toRequest).count q ≤ 1) ∧
    (¬∀ (config : Config) (bounds : List ReplicaId) (c : Chronicle) (q : Request)
        (i : ReplicaId), c.Reachable config bounds → q.weak = true →
        (c.executed i).count q ≤ 1) ∧
    (¬∀ (config : Config) (bounds : List ReplicaId) (c : Chronicle) (q : Request)
        (i : ReplicaId) (r : Replica) (m : ReplicaMessage), c.Reachable config bounds →
        q.weak = true → c.network.replicas[i]? = some r → m.request? = some q →
        0 < c.copies i q → (r.handle m).1.slot? q.id = r.slot? q.id) ∧
    ¬∀ (config : Config) (bounds : List ReplicaId) (c : Chronicle) (q : Request)
        (i : ReplicaId) (r : Replica) (m : ReplicaMessage), c.Reachable config bounds →
        q.weak = true → c.network.replicas[i]? = some r → m.request? = some q →
        0 < c.copies i q → ∀ key,
          (r.handle m).1.witness.pendingCount key = r.witness.pendingCount key := by
  let q : Request := ⟨⟨1, 0⟩, ⟨.put, 1, ⟨[97]⟩⟩, true⟩
  have hsingle := reachable_single.run writeOverwritten
  refine ⟨?_, ?_, ?_, ?_⟩
  · intro hslots
    have hle := hslots _ _ _ q hsingle rfl
    revert hle
    decide +kernel
  · intro hexecuted
    have hle := hexecuted _ _ _ q 0 hsingle rfl
    revert hle
    decide +kernel
  · intro hslot
    let m : ReplicaMessage := .weakPropose ⟨⟨1, 0⟩, ⟨.put, 1, ⟨[97]⟩⟩, none, none⟩
    have hmap : (single.run writeOverwritten).network.replicas[0]?.map (fun r =>
        ((r.handle m).1.slot? q.id, r.slot? q.id)) = some (some 3, some 2) := by decide +kernel
    obtain ⟨r, hr, hat⟩ := Option.map_eq_some_iff.1 hmap
    obtain ⟨hafter, hbefore⟩ := Prod.mk.inj hat
    have hsame := hslot _ _ _ q 0 r m hsingle rfl hr rfl (by decide +kernel)
    rw [hafter, hbefore] at hsame
    simp at hsame
  · intro hpending
    let m : ReplicaMessage := .causalPropose ⟨⟨1, 0⟩, ⟨.put, 1, ⟨[97]⟩⟩, none, some 0⟩
    have hmap : (eagerPair.run writeWitnessed).network.replicas[1]?.map (fun r =>
        ((r.handle m).1.witness.pendingCount 1, r.witness.pendingCount 1)) = some (2, 1) := by
      decide +kernel
    obtain ⟨r, hr, hat⟩ := Option.map_eq_some_iff.1 hmap
    obtain ⟨hafter, hbefore⟩ := Prod.mk.inj hat
    have hsame := hpending _ _ _ q 1 r m (reachable_eagerPair.run writeWitnessed) rfl hr rfl
      (by decide +kernel) 1
    rw [hafter, hbefore] at hsame
    simp at hsame

end Chronicle

end WitnessReplication
