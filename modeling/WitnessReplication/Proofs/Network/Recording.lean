import WitnessReplication.Proofs.CausalReads
import WitnessReplication.Proofs.Network.Apart
import WitnessReplication.Proofs.Replica.Replying
import WitnessReplication.Proofs.Replica.Witnessing

/-!
# Commands that have reached a replica

In every run a command that has reached the leader is in the log, and its client has been sent the
answer that the replica owes it at once. The commands that a replica has recorded have reached it,
and if no weak command is repeated then its witness counts exactly these.
-/

namespace WitnessReplication

namespace Chronicle

open Network Replica

variable {rule : Rule} {config : Config} {bounds : List ReplicaId} {c c' : Chronicle}
variable {i id : ReplicaId} {r : Replica} {m : ReplicaMessage} {slot : Slot} {q : Request}
variable {state : Replica → Prop}

/-- A request has come to a replica. -/
def Got (c : Chronicle) (i : ReplicaId) (q : Request) : Prop := c.Reached i q fun _ => True

theorem Apart.got (h : c.Apart config i c') : c'.Got i q ↔ c.Got i q := by
  have hown : ∀ c : Chronicle, c.Got i q ↔ ∃ d ∈ c.own i, d.message.request? = some q := by
    simp [Got, Reached, mem_own, and_assoc]
  rw [hown, hown, h.own_eq]

theorem Handles.got (h : c.Handles i r m c') (hs : c.Sound config) :
    c'.Got i q ↔ c.Got i q ∨ m.request? = some q := by
  simp [Got, h.reached_iff hs]

theorem Reachable.got_issued (hc : c.Reachable config bounds) (h : c.Got i q) : q ∈ c.issued := by
  obtain ⟨d, hd, -, hm, -⟩ := h
  exact (hc.lasts d hd).request_issued q hm

theorem not_got_start (n : Network) : ¬(start n).Got i q := by
  rintro ⟨d, hd, -⟩
  simp [start] at hd

/-- What a replica does about a request that comes to it for the first time, it has done about every
request that has come to it. -/
theorem ReachableBy.answered_all {P : ReplicaId → Prop} {Q : Request → Prop}
    {A : ReplicaId → Request → Effect → Prop}
    (hanswers : ∀ (c c' : Chronicle) (i : ReplicaId) (r : Replica) (m : ReplicaMessage)
      (q : Request), c.ReachableBy rule config bounds → c.Handles i r m c' → P i →
        m.request? = some q → Q q → c.Got i q ∨ ∃ e ∈ (r.handle m).2, A i q e)
    (hc : c.ReachableBy rule config bounds) :
    ∀ (i : ReplicaId) r, c.network.replicas[i]? = some r → P i → ∀ q, Q q → c.Got i q →
      ∃ e ∈ c.trace i, A i q e := by
  refine hc.everywhere (P := fun c i _ => P i → ∀ q, Q q → c.Got i q → ∃ e ∈ c.trace i, A i q e)
    (fun n _ i _ q _ hgot => absurd hgot (not_got_start n))
    (fun _ _ _ _ _ hapart hold hi q hq hgot => ?_) fun c c' i r m hc _ h hold hi q hq hgot => ?_
  · rw [hapart.trace_eq]
    exact hold hi q hq (hapart.got.1 hgot)
  · have hs := hc.reachable.history.sound
    rw [h.trace_self hs]
    have hkept : c.Got i q → ∃ e ∈ c.trace i ++ (r.handle m).2, A i q e := fun hbefore => by
      obtain ⟨e, he, hanswer⟩ := hold hi q hq hbefore
      exact ⟨e, List.mem_append_left _ he, hanswer⟩
    rcases (h.got hs).1 hgot with hbefore | hm
    · exact hkept hbefore
    · rcases hanswers c c' i r m q hc h hi hm hq with hbefore | ⟨e, he, hanswer⟩
      · exact hkept hbefore
      · exact ⟨e, List.mem_append_right _ he, hanswer⟩

/-! ### The log -/

/-- In every run each command that has reached the leader has a slot. -/
theorem ReachableBy.ordered (hc : c.ReachableBy rule config bounds) :
    ∀ (i : ReplicaId) r, c.network.replicas[i]? = some r → i = config.leader →
      ∀ q, c.Got i q → ∃ slot, c.log.request? slot = some q := by
  refine hc.everywhere (P := fun c i _ => i = config.leader → ∀ q, c.Got i q →
    ∃ slot, c.log.request? slot = some q) (fun n _ i _ q hgot => absurd hgot (not_got_start n))
    (fun _ _ _ _ _ hapart hold hi q hgot => ?_) fun c c' i r m hc hc' h hold hi q hgot => ?_
  · rw [hapart.log_eq hi]
    exact hold hi q (hapart.got.1 hgot)
  · have hs := hc.reachable.history.sound
    have hattends := h.attends hs
    have hleader := (h.isLeader_iff hs).2 hi
    have hkept : (∃ slot, c.log.request? slot = some q) → ∃ slot, c'.log.request? slot = some q :=
      fun ⟨slot, hslot⟩ => ⟨slot, Log.request?_mono hattends.prefix_log hslot⟩
    rcases (h.got hs).1 hgot with hbefore | hm
    · exact hkept (hold hi q hbefore)
    · by_cases hnew : q.weak = false → r.slots.contains q.id = false
      · rw [hattends.log_eq_of_new hleader hm hnew]
        exact ⟨_, Log.request?_append_self _ _⟩
      · -- a strong command that has a slot already
        have hknown : r.slots.contains q.id = true := by
          simp only [Classical.not_imp, Bool.not_eq_false] at hnew
          exact hnew.2
        obtain ⟨slot, hslot⟩ : ∃ slot, r.slot? q.id = some slot :=
          Option.isSome_iff_exists.1 (by simpa [slot?] using hknown)
        obtain ⟨q', hq', hid⟩ := (hattends.leads hleader).slots_sound hslot
        have hissued := hs.records.request_issued hq'
        obtain rfl := hs.records.issued_unique hissued (h.request_issued hs hm) hid
        exact hkept ⟨slot, hq'⟩

/-- In every run the leader has sent its tentative result of each strong command of the log. -/
theorem ReachableBy.replied (hc : c.ReachableBy rule config bounds) :
    ∀ (i : ReplicaId) r, c.network.replicas[i]? = some r → i = config.leader →
      ∀ slot q, c.log.request? slot = some q → q.weak = false →
        ∃ value ok, .tell q.id.client (.reply ⟨i, q.id, value, ok⟩) ∈ c.trace i := by
  refine hc.everywhere (P := fun c i _ => i = config.leader → ∀ slot q,
      c.log.request? slot = some q → q.weak = false →
        ∃ value ok, .tell q.id.client (.reply ⟨i, q.id, value, ok⟩) ∈ c.trace i)
    (fun n _ i _ slot q hq => ?_) (fun _ _ _ _ _ hapart hold hi => ?_)
    fun c c' i r m hc _ h hold hi slot q hq hstrong => ?_
  · simp [Chronicle.start, History.start, Log.request?] at hq
  · rw [hapart.trace_eq, hapart.log_eq hi]
    exact hold hi
  · have hs := hc.reachable.history.sound
    have hattends := h.attends hs
    rw [h.trace_self hs]
    have hkept : c.log.request? slot = some q → ∃ value ok,
        .tell q.id.client (.reply ⟨i, q.id, value, ok⟩) ∈ c.trace i ++ (r.handle m).2 := by
      intro hq
      obtain ⟨value, ok, hmem⟩ := hold hi slot q hq hstrong
      exact ⟨value, ok, List.mem_append_left _ hmem⟩
    rcases hattends.log_eq_or with hlog | ⟨hleader, q', -, hm, hnew, hlog⟩
    · exact hkept (hlog ▸ hq)
    · rw [hlog] at hq
      rcases Log.request?_append_eq_some hq with hq | ⟨-, rfl⟩
      · exact hkept hq
      · obtain ⟨value, ok, hmem⟩ := (hattends.leads hleader).replies hm hstrong (hnew hstrong)
        exact ⟨value, ok, h.id_eq hs ▸ List.mem_append_right _ hmem⟩

/-- In every run whoever sends a result leads, and sends what it answered when it gave out the
command's slot. -/
theorem ReachableBy.reply_answers (hc : c.ReachableBy rule config bounds) :
    ∀ (i : ReplicaId) r, c.network.replicas[i]? = some r → ∀ client reply,
      .tell client (.reply reply) ∈ c.trace i →
        reply.replica = config.leader ∧ c.log.Answers reply.id reply.value reply.ok := by
  refine hc.everywhere (P := fun c i _ => ∀ client reply,
    .tell client (.reply reply) ∈ c.trace i →
      reply.replica = config.leader ∧ c.log.Answers reply.id reply.value reply.ok)
    (fun n _ i client reply hmem => ?_) (fun _ _ _ _ _ hapart hold client reply hmem => ?_)
    fun c c' i r m hc _ h hold client reply hmem => ?_
  · simp [trace_start] at hmem
  · rw [hapart.trace_eq] at hmem
    obtain ⟨hleader, hanswers⟩ := hold client reply hmem
    exact ⟨hleader, hanswers.mono hapart.prefix_log⟩
  · have hs := hc.reachable.history.sound
    have hattends := h.attends hs
    rw [h.trace_self hs] at hmem
    rcases List.mem_append.1 hmem with hmem | hmem
    · obtain ⟨hleader, hanswers⟩ := hold client reply hmem
      exact ⟨hleader, hanswers.mono hattends.prefix_log⟩
    · exact hattends.serving.backed _ hmem _ fun _ => Nat.le_refl _

/-! ### Records -/

/-- In every run the leader records nothing, and what another replica has recorded has come to
it. -/
theorem ReachableBy.recorded (hc : c.ReachableBy rule config bounds) :
    ∀ (i : ReplicaId) r, c.network.replicas[i]? = some r → ∀ id ∈ r.witnessed,
      i ≠ config.leader ∧ ∃ q, c.Got i q ∧ q.id = id := by
  refine hc.everywhere (P := fun c i r => ∀ id ∈ r.witnessed,
      i ≠ config.leader ∧ ∃ q, c.Got i q ∧ q.id = id)
    (fun n _ i id hid => ?_) (fun _ _ _ _ _ hapart hold id hid => ?_)
    fun c c' i r m hc _ h hold id hid => ?_
  · simp [initial] at hid
  · obtain ⟨hother, q, hgot, hq⟩ := hold id hid
    exact ⟨hother, q, hapart.got.2 hgot, hq⟩
  · have hs := hc.reachable.history.sound
    have hattends := h.attends hs
    constructor
    · intro hi
      exact hattends.not_witnessed ((h.isLeader_iff hs).2 hi)
        (fun id hid => (hold id hid).1 hi) id hid
    · rcases hattends.witnessed_of hid with hbefore | ⟨q, hm, hq⟩
      · obtain ⟨-, q, hgot, hq⟩ := hold id hbefore
        exact ⟨q, (h.got hs).2 (.inl hgot), hq⟩
      · exact ⟨q, (h.got hs).2 (.inr hm), hq⟩

/-- A request that a replica has recorded the command of has come to it. -/
theorem Handles.got_of_recorded (h : c.Handles i r m c') (hc : c.ReachableBy rule config bounds)
    (hm : m.request? = some q) (hq : q.id ∈ r.witnessed) : c.Got i q := by
  have hs := hc.reachable.history.sound
  obtain ⟨-, q', hgot, hid⟩ := hc.recorded i r h.replica _ hq
  obtain rfl := hs.records.issued_unique (hc.reachable.got_issued hgot) (h.request_issued hs hm) hid
  exact hgot

/-- If no weak command is repeated, then the witness of a replica that does not lead counts what the
replica has recorded, and nothing that it has recorded has executed. -/
theorem ReachableBy.witnesses (hc : c.ReachableBy .weakOnce config bounds) :
    ∀ (i : ReplicaId) r, c.network.replicas[i]? = some r → i ≠ config.leader → r.Witnesses := by
  refine hc.everywhere (P := fun _ i r => i ≠ config.leader → r.Witnesses)
    (fun n _ i hother => witnesses_initial (decide_eq_false hother.symm))
    (fun _ _ _ _ _ _ hold => hold) fun c c' i r m hc _ h hold hother => ?_
  have hs := hc.reachable.history.sound
  refine (h.attends hs).witnesses (h.not_isLeader hs hother) (fun q hm hweak hq => ?_) (hold hother)
  exact hc.not_reached hweak h.letter hm (h.got_of_recorded hc hm hq)

/-! ### Answers -/

/-- In every run a replica that does not lead has sent its verdict on each strong command that has
come to it. -/
theorem ReachableBy.attested (hc : c.ReachableBy rule config bounds)
    (hr : c.network.replicas[i]? = some r) (hother : i ≠ config.leader) (hgot : c.Got i q)
    (hstrong : q.weak = false) : ∃ ok dep,
      .tell q.id.client (.recordAck ⟨i, config.ballot, q.id, ok, dep⟩) ∈ c.trace i := by
  have hall := hc.answered_all (P := fun i => i ≠ config.leader) (Q := fun q => q.weak = false)
    (A := fun i q e => ∃ ok dep,
      e = .tell q.id.client (.recordAck ⟨i, config.ballot, q.id, ok, dep⟩)) ?_
  · obtain ⟨_, hmem, ok, dep, rfl⟩ := hall i r hr hother q hstrong hgot
    exact ⟨ok, dep, hmem⟩
  · intro c c' i r m q hc h hother hm hstrong
    have hs := hc.reachable.history.sound
    by_cases hq : q.id ∈ r.witnessed
    · exact .inl (h.got_of_recorded hc hm hq)
    · obtain ⟨ok, dep, hmem⟩ := attests (h.not_isLeader hs hother) hm hstrong hq
      rw [h.id_eq hs, (h.attends hs).config_eq] at hmem
      exact .inr ⟨_, hmem, ok, dep, rfl⟩

/-- Where every replica takes weak commands, each has answered every one that has come to it. -/
theorem ReachableBy.answered_causal (hc : c.ReachableBy rule config bounds)
    (hvariant : config.variant = .everyReplica) (hr : c.network.replicas[i]? = some r)
    (hgot : c.Got i q) (hweak : q.weak = true) :
    ∃ value, .tell q.id.client (.causalReply ⟨i, q.id, value⟩) ∈ c.trace i := by
  have hall := hc.answered_all (P := fun _ => True) (Q := fun q => q.weak = true)
    (A := fun i q e => ∃ value, e = .tell q.id.client (.causalReply ⟨i, q.id, value⟩)) ?_
  · obtain ⟨_, hmem, value, rfl⟩ := hall i r hr trivial q hweak hgot
    exact ⟨value, hmem⟩
  · intro c c' i r m q hc h _ hm hweak
    have hs := hc.reachable.history.sound
    have hsuits := hc.reachable.suited i m h.letter
    cases m with
    | propose body =>
        obtain rfl := Option.some.inj hm
        simp at hweak
    | weakPropose body =>
        rw [ReplicaMessage.Suits, hvariant] at hsuits
        simp at hsuits
    | causalPropose body =>
        obtain rfl := Option.some.inj hm
        obtain ⟨value, hmem⟩ := answers_causal (r := r) (by rw [(h.attends hs).config_eq, hvariant])
          body
        rw [h.id_eq hs] at hmem
        exact .inr ⟨_, hmem, value, rfl⟩
    | _ => simp [ReplicaMessage.request?] at hm

end Chronicle

end WitnessReplication
