import WitnessReplication.Proofs.Network.Recording
import WitnessReplication.Proofs.Replica.Recording

/-!
# Records over a run

In every run a replica that does not lead has each command that it records when it comes on record
until it executes it. If no weak command is repeated, then what is on record are therefore exactly
the commands that have come to the replica for its record and have not executed there
(`Chronicle.ReachableBy.witnessed_iff`).
-/

namespace WitnessReplication

/-- Whether the replicas that do not lead record a request. -/
def Request.Recordable (config : Config) (q : Request) : Prop :=
  q.weak = true → config.variant = .everyReplica

namespace Chronicle

open Network Replica

variable {rule : Rule} {config : Config} {bounds : List ReplicaId} {c c' : Chronicle}
variable {i : ReplicaId} {r : Replica} {m : ReplicaMessage} {q : Request}

theorem Handles.recordable (h : c.Handles i r m c') (hs : c.Sound config)
    (hq : r.records? m = some q) : q.Recordable config := by
  rw [← (h.attends hs).config_eq]
  exact (request?_of_records? hq).2.1

/-- What a replica newly records is not on record. -/
theorem Handles.not_witnessed (h : c.Handles i r m c') (hc : c.ReachableBy .weakOnce config bounds)
    (hq : r.records? m = some q) : q.id ∉ r.witnessed := by
  obtain ⟨hm, -, hstrong⟩ := request?_of_records? hq
  cases hweak : q.weak with
  | true => exact fun hmem => hc.not_reached hweak h.letter hm (h.got_of_recorded hc hm hmem)
  | false => exact hstrong hweak

/-- In every run what a replica has on record is a request that has come to it, with its command and
its kind. -/
theorem ReachableBy.got_of_witnessed (hc : c.ReachableBy rule config bounds) :
    ∀ (i : ReplicaId) r, c.network.replicas[i]? = some r → ∀ (id : CommandId) x,
      r.witnessed[id]? = some x →
        ∃ q, c.Got i q ∧ q.Recordable config ∧ q.id = id ∧ x = ⟨q.command, !q.weak⟩ := by
  refine hc.everywhere (P := fun c i r => ∀ (id : CommandId) x, r.witnessed[id]? = some x →
      ∃ q, c.Got i q ∧ q.Recordable config ∧ q.id = id ∧ x = ⟨q.command, !q.weak⟩)
    (fun n _ i id x hx => ?_) (fun _ _ _ _ _ hapart hold id x hx => ?_)
    fun c c' i r m hc hc' h hold id x hx => ?_
  · simp [initial] at hx
  · obtain ⟨q, hgot, hrest⟩ := hold id x hx
    exact ⟨q, hapart.got.2 hgot, hrest⟩
  · have hs := hc.reachable.history.sound
    have hmem : id ∈ (r.handle m).1.witnessed :=
      Std.ExtTreeMap.mem_iff_isSome_getElem?.2 (by simp [hx])
    have hother := (hc'.recorded i _ h.replica' id hmem).1
    rcases (h.attends hs).getElem?_witnessed (h.not_isLeader hs hother) hx with hbefore | hnew
    · obtain ⟨q, hgot, hrest⟩ := hold id x hbefore
      exact ⟨q, (h.got hs).2 (.inl hgot), hrest⟩
    · obtain ⟨q, hq, hid, hx⟩ := hnew
      exact ⟨q, (h.got hs).2 (.inr (request?_of_records? hq).1), h.recordable hs hq, hid, hx⟩

/-- In every run a replica that does not lead has each request that has come for its record on
record, or has executed it. -/
theorem ReachableBy.recorded_of_got (hc : c.ReachableBy rule config bounds) :
    ∀ (i : ReplicaId) r, c.network.replicas[i]? = some r → i ≠ config.leader →
      ∀ q, c.Got i q → q.Recordable config → r.Recorded q := by
  refine hc.everywhere (P := fun c i r => i ≠ config.leader → ∀ q, c.Got i q →
      q.Recordable config → r.Recorded q) (fun n _ i _ q hgot => absurd hgot (not_got_start n))
    (fun _ _ _ _ _ hapart hold hother q hgot => hold hother q (hapart.got.1 hgot))
    fun c c' i r m hc hc' h hold hother q hgot hrecordable => ?_
  have hs := hc.reachable.history.sound
  have hattends := h.attends hs
  have hissued : q ∈ c.issued := h.issued_eq ▸ hc'.reachable.got_issued hgot
  refine hattends.recorded (h.not_isLeader hs hother) ?_ fun q' hm hid =>
    hs.records.issued_unique (h.request_issued hs hm) hissued hid
  rcases (h.got hs).1 hgot with hbefore | hm
  · exact .inl (hold hother q hbefore hrecordable)
  · by_cases hknown : q.weak = false ∧ q.id ∈ r.witnessed
    · exact .inl (hold hother q (h.got_of_recorded hc hm hknown.2) hrecordable)
    · right
      refine Option.filter_eq_some_iff.2 ⟨hm, ?_⟩
      cases hweak : q.weak with
      | true => simp [hattends.config_eq, hrecordable hweak]
      | false =>
          have hnew : q.id ∉ r.witnessed := fun hmem => hknown ⟨hweak, hmem⟩
          rw [← Std.ExtTreeMap.contains_iff_mem, Bool.not_eq_true] at hnew
          simp [hnew]

/-- If no weak command is repeated, then what a replica that does not lead has on record is what has
come to it for the record and has not executed there. -/
theorem ReachableBy.witnessed_iff (hc : c.ReachableBy .weakOnce config bounds)
    (hr : c.network.replicas[i]? = some r) (hother : i ≠ config.leader) {id : CommandId}
    {x : Witnessed} : r.witnessed[id]? = some x ↔
      ∃ q, c.Got i q ∧ q.Recordable config ∧ q ∉ c.executed i ∧ q.id = id ∧
        x = ⟨q.command, !q.weak⟩ := by
  constructor
  · intro hx
    obtain ⟨q, hgot, hrecordable, rfl, rfl⟩ := hc.got_of_witnessed i r hr id x hx
    refine ⟨q, hgot, hrecordable, fun hexecuted => ?_, rfl, rfl⟩
    have hvalue := (hc.witnesses i r hr hother).unexecuted q.id
      (Std.ExtTreeMap.mem_iff_isSome_getElem?.2 (by simp [hx]))
    rw [(hc.reachable.mem_executed_iff hr (hc.reachable.got_issued hgot)).1 hexecuted] at hvalue
    simp at hvalue
  · rintro ⟨q, hgot, hrecordable, hunexecuted, rfl, rfl⟩
    refine (hc.recorded_of_got i r hr hother q hgot hrecordable).resolve_right fun hvalue => ?_
    exact hunexecuted ((hc.reachable.mem_executed_iff hr (hc.reachable.got_issued hgot)).2 hvalue)

/-- A relation between record and witness that holds at the start, and that recording a request
establishes again for the chronicle in which the request has come, holds in every run. -/
theorem ReachableBy.relates
    {I : Chronicle → ReplicaId → Std.ExtTreeMap CommandId Witnessed → Witness → Prop}
    (hstart : ∀ n i, I (.start n) i ∅ .follower)
    (hapart : ∀ c c' i known w, c.Apart config i c' → I c i known w → I c' i known w)
    (hretires : ∀ c i, Retires (I c i))
    (hsame : ∀ c c' i r m, c.ReachableBy .weakOnce config bounds → c.Handles i r m c' →
      i ≠ config.leader → r.records? m = none → I c i r.witnessed r.witness →
        I c' i r.witnessed r.witness)
    (hrecord : ∀ c c' i r m q, c.ReachableBy .weakOnce config bounds → c.Handles i r m c' →
      i ≠ config.leader → r.records? m = some q → q.id ∉ r.witnessed →
      I c i r.witnessed r.witness →
        I c' i (r.witnessed.insert q.id ⟨q.command, !q.weak⟩)
          (r.witness.record q.id q.command (!q.weak)).1)
    (hc : c.ReachableBy .weakOnce config bounds) :
    ∀ (i : ReplicaId) r, c.network.replicas[i]? = some r → i ≠ config.leader →
      I c i r.witnessed r.witness := by
  refine hc.everywhere (P := fun c i r => i ≠ config.leader → I c i r.witnessed r.witness)
    (fun n _ i hother => ?_) (fun c c' i r _ hquiet hold hother => ?_)
    fun c c' i r m hc _ h hold hother => ?_
  · have hfollower : config.isLeader i = false := decide_eq_false hother.symm
    simpa [initial, hfollower] using hstart n i
  · exact hapart c c' i _ _ hquiet (hold hother)
  · have hs := hc.reachable.history.sound
    exact (h.attends hs).relates (h.not_isLeader hs hother) (fun q hq => h.not_witnessed hc hq)
      (hc.witnesses i r h.replica hother) (hretires c' i)
      (fun hq => hsame c c' i r m hc h hother hq (hold hother))
      fun q hq => hrecord c c' i r m q hc h hother hq (h.not_witnessed hc hq) (hold hother)

/-- If no weak command is repeated, then the witness of a replica that does not lead counts the
strong writes that are on record. -/
theorem ReachableBy.countsStrong (hc : c.ReachableBy .weakOnce config bounds) :
    ∀ (i : ReplicaId) r, c.network.replicas[i]? = some r → i ≠ config.leader →
      r.witness.CountsStrong r.witnessed :=
  hc.relates (I := fun _ _ known w => w.CountsStrong known)
    (fun _ _ => Witness.countsStrong_follower) (fun _ _ _ _ _ _ hold => hold)
    (fun _ _ _ _ _ _ htallies hold hx => hold.retire htallies hx)
    (fun _ _ _ _ _ _ _ _ _ hold => hold)
    fun _ _ _ _ _ _ _ _ _ _ hnew hold => hold.record (by simpa using hnew) _ _

end Chronicle

end WitnessReplication
