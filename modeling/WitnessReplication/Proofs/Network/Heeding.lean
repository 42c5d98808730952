import WitnessReplication.Proofs.Network.Apart
import WitnessReplication.Proofs.Replica.Taking
import WitnessReplication.Proofs.Replica.Waiting

/-!
# Messages that have been handled

A message that a replica has handled has had its effect, and keeps it: the replica has accepted the
slot of an accept, has committed the slot of a commit, has heard the sender of an acknowledgement,
and has answered a request for a committed result or will do so when the command executes.
-/

namespace WitnessReplication

namespace Client

variable {c : Client} {id : CommandId} {i : ReplicaId} {m : ClientMessage} {body : Sync}

theorem sync_update {count : Pending → Pending × Decision}
    (h : .toReplica i (.sync body) ∈ (c.update id count).sent) : body.id ∈ c.pending := by
  unfold update at h
  cases hp : c.pending[id]? with
  | none => simp [hp] at h
  | some p =>
      simp only [hp] at h
      split at h
      · simp at h
      · unfold escalate at h
        split at h
        · simp at h
        · obtain ⟨-, rfl⟩ : _ ∧ body = ⟨id⟩ := by simpa using h
          exact Std.ExtTreeMap.mem_iff_isSome_getElem?.2 (by simp [hp])
      · simp at h

/-- A client asks only for the result of a strong command that has not completed. -/
theorem sync_handle (h : .toReplica i (.sync body) ∈ (c.handle m).sent) : body.id ∈ c.pending := by
  have hweak : ∀ reply : WeakReply, (c.completeWeak reply).sent = [] := fun reply => by
    unfold completeWeak
    split <;> rfl
  unfold handle at h
  cases m with
  | reply m => exact sync_update h
  | syncReply m => exact sync_update h
  | recordAck m =>
      dsimp only at h
      split at h
      · simp at h
      · exact sync_update h
  | weakReply m => simp [hweak] at h
  | causalReply m =>
      dsimp only at h
      split at h <;> simp [hweak] at h

end Client

namespace Chronicle

open Network Replica

variable {rule : Rule} {config : Config} {bounds : List ReplicaId} {c c' : Chronicle}
variable {i id : ReplicaId} {r : Replica} {m m' : ReplicaMessage} {slot : Slot} {body : Sync}

/-! ### Requests for committed results -/

theorem not_sync_issue {client : Client} (weak : Bool) (command : Command) {n : Network} :
    .toReplica i (.sync body) ∉ (client.issue weak command).2.2.flatMap (n.letters none) := by
  intro hmem
  obtain ⟨s, hs, hmem⟩ := List.mem_flatMap.1 hmem
  unfold Client.issue Client.propose Client.proposeWeak at hs
  split at hs
  · dsimp only at hs
    split at hs
    all_goals
      obtain rfl := List.mem_singleton.1 hs
      simp [letters] at hmem
  · obtain rfl := List.mem_singleton.1 hs
    simp [letters] at hmem

/-- A request for a committed result in flight is about an issued strong command. -/
theorem Reachable.sync_issued (hc : c.Reachable config bounds)
    (hmem : .toReplica i (.sync body) ∈ c.network.pool) :
    ∃ q ∈ c.issued, q.id = body.id ∧ q.weak = false := by
  refine hc.induct (P := fun c => ∀ i body, .toReplica i (.sync body) ∈ c.network.pool →
    ∃ q ∈ c.issued, q.id = body.id ∧ q.weak = false) (fun n hn i body hmem => ?_)
    (fun c c' hs hstep ih i body hmem => ?_) i body hmem
  · rw [Network.start_eq hn] at hmem
    simp [Chronicle.start, History.start] at hmem
  · have hsubset := hstep.issued_subset hs
    have hold : .toReplica i (.sync body) ∈ c.network.pool →
        ∃ q ∈ c'.issued, q.id = body.id ∧ q.weak = false := fun hmem => by
      obtain ⟨q, hq, hid, hstrong⟩ := ih i body hmem
      exact ⟨q, hsubset hq, hid, hstrong⟩
    cases hstep with
    | issued weak command hc =>
        rcases List.mem_append.1 hmem with hmem | hmem
        · exact hold hmem
        · exact absurd hmem (not_sync_issue weak command)
    | thinned hpool => exact hold (hpool hmem)
    | @reacted place client m hc hm =>
        rcases List.mem_append.1 hmem with hmem | hmem
        · exact hold hmem
        · obtain ⟨s, hsent, hmem⟩ := List.mem_flatMap.1 hmem
          obtain ⟨asked, rfl⟩ := ((hs.clients.sound hc).handle (hs.pool _ hm)).sent s hsent
          obtain ⟨rfl, hasked⟩ := Letter.toReplica.inj (List.mem_singleton.1 hmem)
          obtain rfl := ReplicaMessage.sync.inj hasked
          have hpending := Client.sync_handle hsent
          obtain ⟨p, hp⟩ := Option.isSome_iff_exists.1
            (Std.ExtTreeMap.mem_iff_isSome_getElem?.1 hpending)
          obtain ⟨command, hissued⟩ := (hs.clients.sound hc).pending_issued _ p hp
          exact ⟨_, hissued, rfl, rfl⟩
    | handled hr hm =>
        have h := handles_handled hr hm
        rcases h.effect_of_letter hmem with hmem | hnew | ⟨_, hnew, -⟩ | ⟨_, hnew, -⟩
        · exact hold hmem
        · obtain ⟨_, hbody⟩ := (h.attends hs).serving.backed _ hnew _ fun _ => Nat.le_refl _
          simp at hbody
        · simp at hnew
        · simp at hnew

/-- In every run whoever waits for a committed result waits at the leader for that of a strong
command that has not executed there. -/
theorem ReachableBy.waiting (hc : c.ReachableBy rule config bounds) :
    ∀ (i : ReplicaId) r, c.network.replicas[i]? = some r → r.Waiting c.issued := by
  refine hc.everywhere (P := fun c _ r => r.Waiting c.issued)
    (fun _ _ i => waiting_initial i config) (fun _ _ _ _ _ hapart hold id hid => ?_)
    fun c c' i r m hc hc' h hold => ?_
  · obtain ⟨hleader, hvalue, q, hq, hask⟩ := hold id hid
    exact ⟨hleader, hvalue, q, hapart.issued_subset hq, hask⟩
  · have hrecords := hc'.reachable.history.sound.records
    rw [h.issued_eq] at hrecords ⊢
    refine (h.attends hc.reachable.history.sound).waiting hrecords ?_ hold
    rintro body rfl
    exact hc.reachable.sync_issued h.letter

/-! ### Effects that last -/

/-- What a message that a replica has handled has come to. -/
def Heeds (config : Config) (c : Chronicle) (i : ReplicaId) (r : Replica) : ReplicaMessage → Prop
  | .accept a => a.ballot = config.ballot → r.Carries a.slot fun s => s.accepted = true
  | .commit b => b.ballot = config.ballot → r.Carries b.slot fun s => s.phase = .commit
  | .acceptAck a => i = config.leader → a.ballot = config.ballot →
      a.slot < c.log.length ∧ r.Carries a.slot fun s => s.Hears a.replica
  | .sync body => i = config.leader → body.id ∈ r.syncWaiters ∨
      ∃ value, .tell body.id.client (.syncReply ⟨i, body.id, value, .clear⟩) ∈ c.trace i
  | _ => True

theorem Apart.heeds (h : c.Apart config i c') (hm : c.Heeds config i r m) :
    c'.Heeds config i r m := by
  cases m with
  | acceptAck a =>
      intro hi hballot
      obtain ⟨hlt, hcarries⟩ := hm hi hballot
      exact ⟨Nat.lt_of_lt_of_le hlt h.prefix_log.length_le, hcarries⟩
  | sync body =>
      unfold Heeds
      rw [h.trace_eq]
      exact hm
  | _ => exact hm

/-- What has been handled before keeps its effect. -/
theorem Handles.heeds (h : c.Handles i r m c') (hs : c.Sound config)
    (hm : c.Heeds config i r m') : c'.Heeds config i (r.handle m).1 m' := by
  have hattends := h.attends hs
  cases m' with
  | accept a => exact fun hballot => hattends.carries lasting_accepted (hm hballot)
  | commit b => exact fun hballot => hattends.carries lasting_committed (hm hballot)
  | acceptAck a =>
      intro hi hballot
      obtain ⟨hlt, hcarries⟩ := hm hi hballot
      exact ⟨Nat.lt_of_lt_of_le hlt hattends.prefix_log.length_le, hattends.hears hlt hcarries⟩
  | sync body =>
      intro hi
      rw [h.trace_self hs]
      rcases hm hi with hwaits | ⟨value, hmem⟩
      · refine (hattends.heeds (.inl hwaits)).imp_right ?_
        rintro ⟨value, hmem⟩
        rw [syncReply, h.id_eq hs] at hmem
        exact ⟨value, List.mem_append_right _ hmem⟩
      · exact .inr ⟨value, List.mem_append_left _ hmem⟩
  | _ => trivial

/-- The message at hand has its effect. -/
theorem Handles.heeds_new (h : c.Handles i r m c') (hc : c.Reachable config bounds) :
    c'.Heeds config i (r.handle m).1 m := by
  have hs := hc.history.sound
  have hattends := h.attends hs
  have hunapplied := hc.directed.unapplied i r h.replica
  cases m with
  | accept a => exact fun hballot => hattends.accepted hunapplied hballot
  | commit b => exact fun hballot => hattends.committed hunapplied hballot
  | acceptAck a =>
      rintro rfl hballot
      obtain ⟨q, hq, -⟩ := hc.vouched.acks _ _ h.letter
      obtain ⟨leader, hleader, hdirects⟩ := hc.directed.leader a.slot q hq
      obtain rfl := Option.some.inj (hleader.symm.trans h.replica)
      refine ⟨?_, hattends.heard ((h.isLeader_iff hs).2 rfl) hunapplied hballot hq hdirects⟩
      exact Nat.lt_of_lt_of_le (Log.lt_length_of_request? hq) hattends.prefix_log.length_le
  | sync body =>
      intro hi
      rw [h.trace_self hs]
      refine (hattends.heeds (.inr ⟨(h.isLeader_iff hs).2 hi, rfl⟩)).imp_right ?_
      rintro ⟨value, hmem⟩
      rw [syncReply, h.id_eq hs] at hmem
      exact ⟨value, List.mem_append_right _ hmem⟩
  | _ => trivial

/-- In every run what a replica has handled has had its effect. -/
theorem ReachableBy.heeds (hc : c.ReachableBy rule config bounds) :
    ∀ (i : ReplicaId) r, c.network.replicas[i]? = some r →
      ∀ d ∈ c.own i, c.Heeds config i r d.message := by
  refine hc.everywhere (P := fun c i r => ∀ d ∈ c.own i, c.Heeds config i r d.message)
    (fun n _ i d hd => ?_) (fun _ _ _ _ _ hapart hold d hd => ?_)
    fun c c' i r m hc _ h hold d hd => ?_
  · simp [own, Chronicle.start] at hd
  · rw [hapart.own_eq] at hd
    exact hapart.heeds (hold d hd)
  · have hs := hc.reachable.history.sound
    rw [h.own_eq hs] at hd
    rcases List.mem_append.1 hd with hd | hd
    · exact h.heeds hs (hold d hd)
    · obtain rfl := List.mem_singleton.1 hd
      exact h.heeds_new hc.reachable

end Chronicle

end WitnessReplication
