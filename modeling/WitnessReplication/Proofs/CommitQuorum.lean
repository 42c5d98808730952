import WitnessReplication.Proofs.Network.Vouching
import WitnessReplication.Proofs.Replica.Certifying

/-!
# What a commit needs

No slot is committed anywhere, and no commit is announced, before a majority of the replicas, the
leader among them, has accepted the request that the leader gave the slot to. Lost messages are
not counted, and repeated ones and those that come too late are not counted again.
-/

namespace WitnessReplication

namespace Chronicle

open Network Replica

/-- The commit of a slot has been sent. -/
def Announced (c : Chronicle) (slot : Slot) : Prop :=
  ∃ d ∈ c.handled, ∃ ballot, .broadcast (.commit ⟨ballot, slot⟩) ∈ d.effects

/-- Whatever is committed, and whatever commit was sent or is in flight, is of a chosen slot. -/
structure Certified (config : Config) (c : Chronicle) : Prop where
  replicas : ∀ (i : ReplicaId) r, c.network.replicas[i]? = some r → r.Certifies config c.Voted []
  commits : ∀ i b, .toReplica i (.commit b) ∈ c.network.pool → Chosen config c.Voted b.slot
  announced : ∀ slot, c.Announced slot → Chosen config c.Voted slot

variable {config : Config} {bounds : List ReplicaId} {c c' : Chronicle} {id : ReplicaId}
variable {r : Replica} {m : ReplicaMessage} {slot : Slot} {q : Request} {event : Event}

/-- The leader has voted for what it proposes. -/
theorem Handles.voted_propose (h : c.Handles id r m c') (hs : c.Sound config)
    (hd' : c'.Directed config) {p : Proposal}
    (hhanded : (Event.propose p).Handed c'.log r m slot) :
    r.id = config.leader ∧ c'.Voted slot r.id := by
  obtain ⟨hq, -, haccept⟩ := hhanded
  have hattends := h.attends hs
  obtain ⟨hleads, -⟩ := hattends.serving.backed _ haccept _ fun _ => Nat.le_refl _
  have hid : r.id = config.leader := by
    rw [config_leader_of_isLeader hleads, hattends.config_eq]
  refine ⟨hid, ⟨p.id, p.command, p.weak⟩, hq, ⟨⟨r, m⟩, ?_, rfl, ?_⟩, ?_⟩
  · rw [h.handled_eq]
    exact List.mem_append_right _ (List.mem_singleton_self _)
  · exact ⟨_, ⟨rfl, rfl, rfl, rfl⟩, .inl haccept⟩
  · obtain ⟨leader, hleader, hcarries⟩ := hd'.leader slot _ hq
    rw [hid]
    exact ⟨leader, hleader, hcarries.mono fun _ hdirects => hdirects.1⟩

/-- What a message in flight hands to a slot stands for what has happened. -/
theorem Handles.certified_event (h : c.Handles id r m c') (hstep : c.Step c') (hs : c.Sound config)
    (hd' : c'.Directed config) (hv : c.Vouched) (hc : c.Certified config)
    (hhanded : event.Handed c'.log r m slot) : event.Certified config c'.Voted r.id slot := by
  have hattends := h.attends hs
  cases event with
  | propose p => exact h.voted_propose hs hd' hhanded
  | accept a => trivial
  | acceptAck a =>
      obtain ⟨-, rfl, rfl | ⟨b, rfl, -⟩⟩ := hhanded
      · exact hstep.voted hs (hv.acks id a h.letter)
      · exact hattends.backed.elim
  | commit b =>
      obtain ⟨-, rfl, rfl⟩ := hhanded
      exact (hc.commits id b h.letter).mono fun _ => hstep.voted hs
  | wake => trivial

/-- Every step commits, and announces the commit of, chosen slots only. -/
theorem Step.certified (h : c.Step c') (hs : c.Sound config) (hd : c.Directed config)
    (hv : c.Vouched) (hc : c.Certified config) : c'.Certified config := by
  have hvoted : ∀ slot id, c.Voted slot id → c'.Voted slot id := fun _ _ => h.voted hs
  have hchosen : ∀ slot, Chosen config c.Voted slot → Chosen config c'.Voted slot :=
    fun slot hslot => hslot.mono (hvoted slot)
  rcases h.quiet_or_handles hs with hquiet | ⟨id, r, m, hhandles⟩
  · constructor
    case replicas =>
      rw [hquiet.replicas_eq]
      exact fun i r hr => (hc.replicas i r hr).mono hvoted
    case commits =>
      intro i b hmem
      rcases hquiet.pool _ hmem with hold | ⟨_, _, hletter, hclient⟩
      · exact hchosen _ (hc.commits i b hold)
      · obtain ⟨-, rfl⟩ := Letter.toReplica.inj hletter
        exact hclient.elim
    case announced =>
      unfold Announced
      rw [hquiet.handled_eq]
      exact fun slot hslot => hchosen slot (hc.announced slot hslot)
  · have hattends := hhandles.attends hs
    have hcertifies : (r.handle m).1.Certifies config c'.Voted (r.handle m).2 := by
      apply hattends.keeps (kept_certifies hattends.config_eq ?_)
      · exact (hc.replicas id r hhandles.replica).mono hvoted
      · exact fun slot event hhanded =>
          hhandles.certified_event h hs (h.directed hs hd) hv hc hhanded
    constructor
    case replicas =>
      intro i r' hr'
      rcases hhandles.replica_eq hr' with ⟨-, rfl⟩ | ⟨-, hr'⟩
      · exact ⟨hcertifies.executed, hcertifies.committed, hcertifies.phase,
          hcertifies.certificate, by simp⟩
      · exact (hc.replicas i r' hr').mono hvoted
    case commits =>
      intro i b hmem
      rcases hhandles.effect_of_letter hmem with hold | hnew | ⟨_, hnew, -⟩ | ⟨_, hnew, -⟩
      · exact hchosen _ (hc.commits i b hold)
      · exact hcertifies.announced b hnew
      · simp at hnew
      · simp at hnew
    case announced =>
      rintro slot ⟨d, hd, ballot, hmem⟩
      rw [hhandles.handled_eq] at hd
      rcases List.mem_append.1 hd with hold | hnew
      · exact hchosen slot (hc.announced slot ⟨d, hold, ballot, hmem⟩)
      · obtain rfl := List.mem_singleton.1 hnew
        exact hcertifies.announced ⟨ballot, slot⟩ hmem

theorem certified_start {n : Network} (hn : Network.start config bounds = .ok n) :
    (Chronicle.start n).Certified config := by
  constructor
  case replicas =>
    intro i r hr
    rw [replicas_start hn hr]
    exact certifies_initial i
  case commits =>
    intro i b hmem
    obtain rfl := Network.start_eq hn
    simp [Chronicle.start, History.start] at hmem
  case announced =>
    rintro slot ⟨d, hd, -⟩
    simp [Chronicle.start] at hd

theorem Reachable.certified (hc : c.Reachable config bounds) : c.Certified config :=
  hc.induct_vouched (fun _ => certified_start) fun _ _ hs hd hv h => h.certified hs hd hv

/-- Where a slot is committed at a replica, or its commit has ever been sent, a majority of
replicas, each counted once and the leader among them, has accepted for it just the request that
the leader gave it to; and each of them still has that in its slot, or has executed it. -/
theorem commit_quorum (hc : c.Reachable config bounds)
    (hcommit : c.Announced slot ∨ ∃ r ∈ c.network.replicas, r.isCommitted slot = true) :
    ∃ q, c.log.request? slot = some q ∧ ∃ ids : List ReplicaId, ids.Nodup ∧
      config.replicas / 2 + 1 ≤ ids.length ∧ config.leader ∈ ids ∧
      ∀ id ∈ ids, c.HasAccepted id slot q ∧
        ∃ r, c.network.replicas[id]? = some r ∧ r.HasAccepted slot q := by
  have hcertified := hc.certified
  have hchosen : Chosen config c.Voted slot := by
    rcases hcommit with hannounced | ⟨r, hr, hcommitted⟩
    · exact hcertified.announced slot hannounced
    · obtain ⟨i, hi⟩ := List.getElem?_of_mem hr
      have hr := hcertified.replicas i r hi
      rcases Bool.or_eq_true_iff.1 hcommitted with hcommitted | hexecuted
      · exact hr.committed slot (Std.ExtTreeSet.contains_iff_mem.1 hcommitted)
      · exact hr.executed slot (of_decide_eq_true hexecuted)
  obtain ⟨ids, hnodup, hsize, hleader, hvoted⟩ := hchosen
  obtain ⟨q, hq, -⟩ := hvoted _ hleader
  refine ⟨q, hq, ids, hnodup, hsize, hleader, fun id hid => ?_⟩
  obtain ⟨q', hq', haccepted⟩ := hvoted id hid
  obtain rfl : q' = q := Option.some.inj (hq'.symm.trans hq)
  exact haccepted

/-- Client 1 writes key 1; the acknowledgement of the second replica comes twice, and the leader
commits with the first. -/
def writeAcknowledged : List Network.Action :=
  [.propose 0 ⟨.put, 1, ⟨[118]⟩⟩, .deliver 0, .deliver 2, .duplicate 2, .deliver 2]

theorem commit_quorum_pair :
    ∃ ids : List ReplicaId, ids.Nodup ∧ 2 ≤ ids.length ∧ ∀ id ∈ ids,
      (pair.run writeAcknowledged).HasAccepted id 0 ⟨⟨1, 0⟩, ⟨.put, 1, ⟨[118]⟩⟩, false⟩ := by
  have hcommitted : ∃ r ∈ (pair.run writeAcknowledged).network.replicas,
      r.isCommitted 0 = true := List.any_eq_true.1 (by decide +kernel)
  have hslot : (pair.run writeAcknowledged).log.request? 0 =
      some ⟨⟨1, 0⟩, ⟨.put, 1, ⟨[118]⟩⟩, false⟩ := by decide +kernel
  obtain ⟨q, hq, ids, hnodup, hsize, -, haccepted⟩ :=
    commit_quorum (reachable_pair.run writeAcknowledged) (.inr hcommitted)
  obtain rfl := Option.some.inj (hslot.symm.trans hq)
  exact ⟨ids, hnodup, hsize, fun id hid => (haccepted id hid).1⟩

end Chronicle

end WitnessReplication
