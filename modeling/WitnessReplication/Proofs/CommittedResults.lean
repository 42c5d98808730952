import WitnessReplication.Proofs.Network.Soundness

/-!
# Committed results

A command that completes on the slow path, or as a weak command that is answered after execution,
completes with the log's result: that of executing it in its slot, which the leader has executed.
-/

namespace WitnessReplication.History

open Client

variable {config : Config} {bounds : List ReplicaId} {h : History}

/-- Slots below the frontier have executed at the leader. -/
theorem exists_leader_of_lt_frontier {slot : Nat} (hlt : slot < h.frontier config) :
    ∃ leader, h.network.replicas[config.leader]? = some leader ∧ slot < leader.executed := by
  unfold frontier at hlt
  cases hleader : h.network.replicas[config.leader]? with
  | none => simp [hleader] at hlt
  | some leader => exact ⟨leader, rfl, by simpa [hleader] using hlt⟩

/-- A completion on the slow path, or of a weak command where only the leader takes those, is the
log's result for the one request that was issued with its id. -/
theorem completion_result (hh : h.Reachable config bounds) {done : Completion}
    (hdone : done ∈ h.completions)
    (hpath : done.path = .slow ∨ (done.path = .weak ∧ config.variant = .leaderOnly)) :
    ∃ q ∈ h.issued, q.id = done.id ∧ (∀ q' ∈ h.issued, q'.id = done.id → q' = q) ∧
      ∃ slot leader, h.network.replicas[config.leader]? = some leader ∧ slot < leader.executed ∧
        h.log.request? slot = some q ∧
        done.value = ((h.log.storeAt slot).execute q.command).2 := by
  have hs := hh.sound
  obtain ⟨-, hbacked⟩ := hs.completions done hdone
  have hresult : h.log.Results (h.frontier config) done.id done.value := by
    rcases hpath with hpath | ⟨hpath, hvariant⟩
    · rw [hpath] at hbacked
      exact hbacked
    · rw [hpath] at hbacked
      exact hbacked hvariant
  obtain ⟨slot, q, hq, hid, hlt, hvalue⟩ := hresult
  obtain ⟨leader, hleader, hexec⟩ := exists_leader_of_lt_frontier hlt
  have hissued := hs.records.request_issued hq
  refine ⟨q, hissued, hid, fun q' hq' hid' => ?_, slot, leader, hleader, hexec, hq, hvalue⟩
  exact hs.records.issued_unique hq' hissued (hid'.trans hid.symm)

/-- Client 1 writes key 1, which completes and executes, and reads it on the slow path. -/
def writeAndRead : List Network.Action :=
  [.propose 0 ⟨.put, 1, ⟨[118]⟩⟩, .deliver 0, .deliver 1, .deliver 1, .deliver 2, .propose 1 (.get 1),
    .deliver 2, .deliver 4, .deliver 5, .deliver 1, .deliver 3, .deliver 5]

theorem completion_result_pair :
    ∃ slot q, (pair.run writeAndRead).log.request? slot = some q ∧ q.id = ⟨2, 0⟩ ∧
      ⟨[118]⟩ = (((pair.run writeAndRead).log.storeAt slot).execute q.command).2 := by
  have hdone : (⟨⟨2, 0⟩, ⟨[118]⟩, .slow⟩ : Completion) ∈ (pair.run writeAndRead).completions := by
    decide +kernel
  obtain ⟨q, -, hid, -, slot, -, -, -, hq, hvalue⟩ :=
    completion_result (reachable_pair.run writeAndRead) hdone (.inl rfl)
  exact ⟨slot, q, hq, hid, hvalue⟩

end WitnessReplication.History
