import Mathlib.Data.Finset.Card
import Mathlib.Data.Finset.Range
import WitnessReplication.Proofs.Quorum.Completion

/-!
# Quorums intersect

Replicas that have completed a certificate are at least as many as its rule says, and any such
replicas can complete one (`completes_iff`). So what two quorums have in common is a matter of
numbers: two sets of replicas share at least as many as their sizes exceed the cluster by
(`card_add_card_le`).

Any two quorums share a replica, whatever their rules. Two quorums of three quarters that both hold
the leader share another replica besides, and a quorum of three quarters holds more than half of
every least majority (`quorums_intersect`).
-/

namespace WitnessReplication.Quorum

/-- Replicas of a cluster have completed a certificate of a rule, whoever its leader was and
whatever messages it accepted. -/
def Completed (rule : Threshold) (replicas : Nat) (ids : Finset ReplicaId) : Prop :=
  ∃ (α : Type) (leader : ReplicaId) (required : Bool) (accepts : α → Bool)
    (votes : List (ReplicaId × α)), (∀ vote ∈ votes, vote.1 < replicas) ∧
      let c := ((Certificate.new rule replicas leader required).addAll accepts votes).1
      c.fired = true ∧ c.senders.toFinset = ids

/-! ### The sizes of quorums -/

variable {rule rule' : Threshold} {replicas : Nat} {ids ids' : Finset ReplicaId}

theorem Threshold.size_pos (h : 0 < replicas) : 0 < rule.size replicas := by
  cases rule <;> simp only [Threshold.size] <;> omega

theorem Threshold.size_le (h : 0 < replicas) : rule.size replicas ≤ replicas := by
  cases rule <;> simp only [Threshold.size] <;> omega

theorem Threshold.majority_le (h : 0 < replicas) :
    Threshold.majority.size replicas ≤ rule.size replicas := by
  cases rule <;> simp only [Threshold.size] <;> omega

/-- Two majorities have more replicas than the cluster. -/
theorem Threshold.lt_majority_add_majority (replicas : Nat) :
    replicas < Threshold.majority.size replicas + Threshold.majority.size replicas := by
  simp only [Threshold.size]
  omega

/-- Two quorums of three quarters have at least two replicas more than a cluster of two or more. -/
theorem Threshold.add_two_le_threeQuarters (h : 2 ≤ replicas) :
    replicas + 2 ≤
      Threshold.threeQuarters.size replicas + Threshold.threeQuarters.size replicas := by
  obtain rfl | h := Nat.eq_or_lt_of_le h
  · decide
  · simp only [Threshold.size]
    omega

/-- A quorum of three quarters and half of a majority have more replicas than the cluster. -/
theorem Threshold.lt_threeQuarters_add_majority (replicas : Nat) :
    2 * replicas <
      2 * Threshold.threeQuarters.size replicas + Threshold.majority.size replicas := by
  simp only [Threshold.size]
  omega

/-! ### The replicas of a completed certificate -/

/-- The replicas that have completed a certificate are as many as its rule says. -/
theorem Completed.size_le (h : Completed rule replicas ids) :
    ids ⊆ Finset.range replicas ∧ rule.size replicas ≤ ids.card := by
  obtain ⟨α, leader, required, accepts, votes, hids, hfired, rfl⟩ := h
  obtain ⟨opening, hopening, hs, hc⟩ :=
    Certificate.exists_counted_of_fired rule replicas leader required hfired
  have hsenders : (Certificate.counted rule replicas leader required accepts opening true).senders =
      (firstVotes accepts opening).map Prod.fst := rfl
  rw [hc, hsenders, (senders_firstVotes accepts opening).2]
  refine ⟨fun id hid => ?_, hs.1.1⟩
  obtain ⟨vote, hvote, -, rfl⟩ := mem_contributors.1 hid
  exact Finset.mem_range.2 (hids vote (hopening.subset hvote))

/-- Any replicas that are enough can complete a certificate: one that requires the message that
comes last. -/
theorem completed_of_size_le (hpos : 0 < replicas) (hsubset : ids ⊆ Finset.range replicas)
    (hsize : rule.size replicas ≤ ids.card) : Completed rule replicas ids := by
  obtain ⟨leader, hleader⟩ : ids.Nonempty :=
    Finset.card_pos.1 (Nat.lt_of_lt_of_le (Threshold.size_pos hpos) hsize)
  let others : List (ReplicaId × Unit) := (ids.erase leader).toList.map fun id => (id, ())
  have hothers : contributors (fun _ => true) others = ids.erase leader := by
    ext id
    simp [others, mem_contributors]
  have hall : contributors (fun _ => true) (others ++ [(leader, ())]) = ids := by
    rw [contributors_append, hothers, contributors_singleton, if_pos rfl, Finset.union_comm,
      Finset.singleton_union, Finset.insert_erase hleader]
  have hbefore : ¬Suffices (rule.size replicas) leader true (fun _ => true) others := fun hs => by
    have hmem := hs.1.2 rfl
    rw [hothers] at hmem
    exact Finset.notMem_erase leader ids hmem
  have hnew : IsFirst (fun _ => true) others (leader, ()) :=
    ⟨rfl, by rw [hothers]; exact Finset.notMem_erase leader ids⟩
  have hs : Suffices (rule.size replicas) leader true (fun _ => true)
      (others ++ [(leader, ())]) := by
    rw [Suffices, Reaches, hall]
    exact ⟨⟨hsize, fun _ => hleader⟩, leader, hleader⟩
  refine ⟨Unit, leader, true, fun _ => true, others ++ [(leader, ())], fun vote hvote => ?_, ?_⟩
  · refine Finset.mem_range.1 (hsubset ?_)
    rw [← hall]
    exact mem_contributors.2 ⟨vote, hvote, rfl, rfl⟩
  · rw [Certificate.addAll_concat, Certificate.addAll_of_not_suffices rule replicas leader true
      hbefore]
    rcases Certificate.addIf_counted rule replicas leader true hnew with ⟨hadd, -⟩ | ⟨-, hunmet⟩
    · rw [hadd]
      exact ⟨rfl, (senders_firstVotes _ _).2.trans hall⟩
    · exact absurd hs hunmet

theorem completed_iff (hpos : 0 < replicas) : Completed rule replicas ids ↔
    ids ⊆ Finset.range replicas ∧ rule.size replicas ≤ ids.card :=
  ⟨Completed.size_le, fun h => completed_of_size_le hpos h.1 h.2⟩

/-! ### What quorums have in common -/

/-- Sets of replicas share as many as their sizes exceed the cluster by. -/
theorem card_add_card_le (h : ids ⊆ Finset.range replicas) (h' : ids' ⊆ Finset.range replicas) :
    ids.card + ids'.card ≤ replicas + (ids ∩ ids').card := by
  have hunion := Finset.card_le_card (Finset.union_subset h h')
  rw [Finset.card_range] at hunion
  have hsum := Finset.card_union_add_card_inter ids ids'
  omega

theorem Completed.inter_nonempty (hpos : 0 < replicas) (h : Completed rule replicas ids)
    (h' : Completed rule' replicas ids') : (ids ∩ ids').Nonempty := by
  have hshared := card_add_card_le h.size_le.1 h'.size_le.1
  have hsize := Nat.le_trans (Threshold.majority_le hpos) h.size_le.2
  have hsize' := Nat.le_trans (Threshold.majority_le hpos) h'.size_le.2
  have hmajorities := Threshold.lt_majority_add_majority replicas
  exact Finset.card_pos.1 (by omega)

/-- Two quorums of three quarters share two replicas, so one that is not the leader. -/
theorem Completed.exists_ne (htwo : 2 ≤ replicas) (h : Completed .threeQuarters replicas ids)
    (h' : Completed .threeQuarters replicas ids') (leader : ReplicaId) :
    ∃ id ∈ ids ∩ ids', id ≠ leader := by
  have hshared := card_add_card_le h.size_le.1 h'.size_le.1
  have hsizes := Threshold.add_two_le_threeQuarters htwo
  have hsize := h.size_le.2
  have hsize' := h'.size_le.2
  exact Finset.exists_mem_ne (by omega) leader

theorem Completed.card_lt (h : Completed .threeQuarters replicas ids)
    (hsubset : ids' ⊆ Finset.range replicas)
    (hcard : ids'.card = Threshold.majority.size replicas) :
    ids'.card < 2 * (ids ∩ ids').card := by
  have hshared := card_add_card_le h.size_le.1 hsubset
  have hsizes := Threshold.lt_threeQuarters_add_majority replicas
  have hsize := h.size_le.2
  omega

/-- In a cluster that is not empty, a quorum has at least one replica and no more than there are,
and one of three quarters is no smaller than a majority. Replicas can complete a certificate just
if they are as many as its rule says. Any two quorums share a replica. In a cluster of at least two
replicas, two quorums of three quarters that hold the leader share another replica. A quorum of
three quarters holds more than half of every majority of the least size. -/
theorem quorums_intersect (replicas : Nat) (hpos : 1 ≤ replicas) :
    (∀ rule : Threshold, 1 ≤ rule.size replicas ∧ rule.size replicas ≤ replicas) ∧
    Threshold.majority.size replicas ≤ Threshold.threeQuarters.size replicas ∧
    (∀ rule ids, Completed rule replicas ids ↔
      ids ⊆ Finset.range replicas ∧ rule.size replicas ≤ ids.card) ∧
    (∀ rule rule' ids ids', Completed rule replicas ids → Completed rule' replicas ids' →
      ∃ id, id ∈ ids ∧ id ∈ ids') ∧
    (2 ≤ replicas → ∀ leader ids ids', Completed .threeQuarters replicas ids →
      Completed .threeQuarters replicas ids' → leader ∈ ids → leader ∈ ids' →
        ∃ id, id ∈ ids ∧ id ∈ ids' ∧ id ≠ leader) ∧
    ∀ ids majority, Completed .threeQuarters replicas ids → Completed .majority replicas majority →
      majority.card = replicas / 2 + 1 → majority.card < 2 * (ids ∩ majority).card := by
  refine ⟨fun rule => ⟨Threshold.size_pos hpos, Threshold.size_le hpos⟩,
    Threshold.majority_le hpos, fun rule ids => completed_iff hpos,
    fun rule rule' ids ids' h h' => ?_, fun htwo leader ids ids' h h' _ _ => ?_,
    fun ids majority h h' hcard => h.card_lt h'.size_le.1 hcard⟩
  · obtain ⟨id, hid⟩ := h.inter_nonempty hpos h'
    exact ⟨id, Finset.mem_inter.1 hid⟩
  · obtain ⟨id, hid, hne⟩ := h.exists_ne htwo h' leader
    exact ⟨id, (Finset.mem_inter.1 hid).1, (Finset.mem_inter.1 hid).2, hne⟩

/-- In a cluster of four, where three quarters are no more than a majority, two quorums of three
with the leader still share another replica. -/
theorem quorums_intersect_four :
    Completed .threeQuarters 4 {0, 1, 2} ∧ Completed .threeQuarters 4 {0, 2, 3} ∧
      ∃ id, id ∈ ({0, 1, 2} : Finset ReplicaId) ∧ id ∈ ({0, 2, 3} : Finset ReplicaId) ∧ id ≠ 0 := by
  obtain ⟨-, -, hcompleted, -, hshared, -⟩ := quorums_intersect 4 (by decide)
  have h : Completed .threeQuarters 4 {0, 1, 2} := (hcompleted _ _).2 (by decide)
  have h' : Completed .threeQuarters 4 {0, 2, 3} := (hcompleted _ _).2 (by decide)
  exact ⟨h, h', hshared (by decide) 0 _ _ h h' (by decide) (by decide)⟩

end WitnessReplication.Quorum
