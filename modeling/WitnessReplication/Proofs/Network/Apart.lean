import WitnessReplication.Proofs.CommitQuorum
import WitnessReplication.Proofs.Network.Reporting
import WitnessReplication.Proofs.Network.Rules
import WitnessReplication.Proofs.Replica.Advancing

/-!
# One replica among others

An action changes at most one replica. For the others it is as if nothing had happened, except that
the log and the issued commands may have grown: `Chronicle.Apart` says so. A property of a single
replica and of what it has handled that survives both this and each message that the replica
handles holds of every replica in every run (`Chronicle.ReachableBy.everywhere`).

The first such property is that no slot waits in vain: a committed slot with a known command is
awaited by none but the slot before it.
-/

namespace WitnessReplication

namespace Chronicle

open Network Replica

/-- What a replica has handled. -/
def own (c : Chronicle) (i : ReplicaId) : List Handling :=
  c.handled.filter fun d => d.replica.id = i

/-- An action in which a replica has no part. The leader's log grows only by the leader's doing. -/
structure Apart (config : Config) (i : ReplicaId) (c c' : Chronicle) : Prop where
  prefix_log : c.log <+: c'.log
  log_eq : i = config.leader → c'.log = c.log
  issued_subset : c.issued ⊆ c'.issued
  handled_subset : c.handled ⊆ c'.handled
  own_eq : c'.own i = c.own i

variable {rule : Rule} {config : Config} {bounds : List ReplicaId} {c c' : Chronicle}
variable {i id : ReplicaId} {r : Replica} {m : ReplicaMessage} {slot : Slot} {event : Event}

theorem mem_own {d : Handling} : d ∈ c.own i ↔ d ∈ c.handled ∧ d.replica.id = i := by
  simp [own]

theorem trace_eq_own (c : Chronicle) (i : ReplicaId) :
    c.trace i = (c.own i).flatMap Handling.effects := rfl

theorem Apart.trace_eq (h : c.Apart config i c') : c'.trace i = c.trace i := by
  rw [trace_eq_own, trace_eq_own, h.own_eq]

theorem Handles.isLeader_iff (h : c.Handles i r m c') (hs : c.Sound config) :
    r.isLeader = true ↔ i = config.leader := by
  rw [hs.replicas.isLeader_eq h.replica, decide_eq_true_iff]

theorem Handles.not_isLeader (h : c.Handles i r m c') (hs : c.Sound config)
    (hother : i ≠ config.leader) : r.isLeader = false := by
  rw [hs.replicas.isLeader_eq h.replica, decide_eq_false_iff_not]
  exact hother

/-- A replica has a part only in its own actions. -/
theorem Quiet.apart (h : c.Quiet c') (i : ReplicaId) : c.Apart config i c' where
  prefix_log := h.log_eq ▸ List.prefix_rfl
  log_eq _ := h.log_eq
  issued_subset := h.issued_subset
  handled_subset := h.handled_eq ▸ List.Subset.refl _
  own_eq := by rw [own, own, h.handled_eq]

theorem Handles.apart (h : c.Handles id r m c') (hs : c.Sound config) (hother : i ≠ id) :
    c.Apart config i c' where
  prefix_log := (h.attends hs).prefix_log
  log_eq hi := by
    have hleader := h.not_isLeader hs fun hid => hother (hi.trans hid.symm)
    simp [h.log_eq, hleader]
  issued_subset := h.issued_eq ▸ List.Subset.refl _
  handled_subset := h.handled_eq ▸ List.subset_append_left _ _
  own_eq := by
    have hnot : r.id ≠ i := h.id_eq hs ▸ hother.symm
    simp [own, h.handled_eq, hnot]

theorem Handles.own_eq (h : c.Handles i r m c') (hs : c.Sound config) :
    c'.own i = c.own i ++ [⟨r, m⟩] := by
  simp [own, h.handled_eq, h.id_eq hs]

theorem trace_start (n : Network) (i : ReplicaId) : (start n).trace i = [] := rfl

/-- What a replica has sent in handling a message comes after what it had sent before. -/
theorem Handles.trace_self (h : c.Handles i r m c') (hs : c.Sound config) :
    c'.trace i = c.trace i ++ (r.handle m).2 := by
  rw [h.trace_eq hs, if_pos rfl]

/-- What survives actions that a replica has no part in, and every message that it handles, holds
of every replica. -/
theorem ReachableBy.everywhere {P : Chronicle → ReplicaId → Replica → Prop}
    (hstart : ∀ n, Network.start config bounds = .ok n → ∀ i, P (.start n) i (.initial i config))
    (hapart : ∀ c c' i r, c.ReachableBy rule config bounds → c.Apart config i c' →
      P c i r → P c' i r)
    (hhandles : ∀ c c' i r m, c.ReachableBy rule config bounds →
      c'.ReachableBy rule config bounds → c.Handles i r m c' → P c i r → P c' i (r.handle m).1)
    (hc : c.ReachableBy rule config bounds) :
    ∀ (i : ReplicaId) r, c.network.replicas[i]? = some r → P c i r := by
  refine hc.induct (P := fun c => ∀ (i : ReplicaId) r, c.network.replicas[i]? = some r → P c i r)
    (fun n hn i r hr => ?_) fun c c' action hc hc' _ hturn ih i r hr => ?_
  · rw [replicas_start hn hr]
    exact hstart n hn i
  · have hs := hc.reachable.history.sound
    rcases hturn.quiet_or_handles hs with hquiet | ⟨id, base, m, h⟩
    · rw [hquiet.replicas_eq] at hr
      exact hapart c c' i r hc (hquiet.apart i) (ih i r hr)
    · rcases h.replica_eq hr with ⟨rfl, rfl⟩ | ⟨hother, hr⟩
      · exact hhandles c c' i base m hc hc' h (ih i base h.replica)
      · exact hapart c c' i r hc (h.apart hs hother) (ih i r hr)

/-! ### Slots that wait -/

/-- What a message hands to a slot, it hands to a slot of the log. -/
theorem Handles.slot_lt (h : c.Handles i r m c') (hc : c.Reachable config bounds)
    (hplanned : event.Planned r m slot) : slot < c'.log.length := by
  have hs := hc.history.sound
  have hattends := h.attends hs
  have hbatch : ∀ b, m ≠ .batch b := by
    rintro b rfl
    exact hattends.backed
  have hle := hattends.prefix_log.length_le
  obtain ⟨hcame, -⟩ := hplanned
  cases event with
  | propose p =>
      obtain ⟨-, _, -, hq⟩ := hattends.serving.backed _ hcame.2 _ fun _ => Nat.le_refl _
      exact Log.lt_length_of_request? hq
  | accept a =>
      obtain ⟨rfl, rfl | ⟨b, rfl, -⟩⟩ := hcame
      · obtain ⟨-, _, -, hq⟩ := hattends.backed
        exact Nat.lt_of_lt_of_le (Log.lt_length_of_request? hq) hle
      · exact absurd rfl (hbatch b)
  | acceptAck a =>
      obtain ⟨rfl, rfl | ⟨b, rfl, -⟩⟩ := hcame
      · obtain ⟨q, hq, -⟩ := hc.vouched.acks _ _ h.letter
        exact Nat.lt_of_lt_of_le (Log.lt_length_of_request? hq) hle
      · exact absurd rfl (hbatch b)
  | commit b =>
      obtain ⟨rfl, rfl⟩ := hcame
      obtain ⟨_, -, -, hleader, hvoted⟩ := hc.certified.commits _ _ h.letter
      obtain ⟨q, hq, -⟩ := hvoted _ hleader
      exact Nat.lt_of_lt_of_le (Log.lt_length_of_request? hq) hle
  | wake => exact hcame.elim

/-- In every run every slot under way is one of the log that has not executed, and of those that
could execute none waits in vain. -/
theorem ReachableBy.steady (hc : c.ReachableBy rule config bounds) :
    ∀ (i : ReplicaId) r, c.network.replicas[i]? = some r → r.Steady c.log.length ∅ :=
  hc.everywhere (P := fun c _ r => r.Steady c.log.length ∅)
    (fun _ _ i => steady_initial i config)
    (fun _ _ _ _ _ hapart hsteady => hsteady.mono hapart.prefix_log.length_le)
    fun _ _ _ _ _ hc _ h hsteady => (h.attends hc.reachable.history.sound).steady
      (fun _ _ hplanned => h.slot_lt hc.reachable hplanned) hsteady

/-- In every run a committed slot that has not executed is under way. -/
theorem ReachableBy.committedLive (hc : c.ReachableBy rule config bounds) :
    ∀ (i : ReplicaId) r, c.network.replicas[i]? = some r → r.CommittedLive :=
  hc.everywhere (P := fun _ _ r => r.CommittedLive)
    (fun _ _ i => committedLive_initial i config) (fun _ _ _ _ _ _ hlive => hlive)
    fun _ _ _ _ _ hc _ h hlive =>
      (h.attends hc.reachable.history.sound).keeps kept_committedLive hlive

end Chronicle

end WitnessReplication
