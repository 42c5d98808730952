import WitnessReplication.Proofs.Network.Answering
import WitnessReplication.Proofs.Network.Apart
import WitnessReplication.Proofs.Replica.Owing

/-!
# Nobody owes word of a slot

In every run each replica has acknowledged the slots that it has accepted, has announced the slots
that it has committed unless it was told of the commit, and has answered the weak commands that it
owes an answer once they execute. So where a slot is at a replica tells which messages there have
been.
-/

namespace WitnessReplication

namespace Chronicle

open Network Replica

variable {rule : Rule} {config : Config} {bounds : List ReplicaId} {c c' : Chronicle}
variable {i id : ReplicaId} {r : Replica} {m : ReplicaMessage} {slot : Slot} {b : Commit}
variable {sent : List Effect}

/-! ### Acknowledgements -/

/-- The acknowledgement that replica `i` sends of a slot. -/
def ackOf (config : Config) (i : ReplicaId) (slot : Slot) : AcceptAck := ⟨config.ballot, slot, i⟩

/-- In every run a replica that does not lead has acknowledged each slot that it has accepted, and
knows the command of each. -/
theorem ReachableBy.acknowledged (hc : c.ReachableBy rule config bounds) :
    ∀ (i : ReplicaId) r, c.network.replicas[i]? = some r → i ≠ config.leader →
      r.Ledger (fun slot s sent => s.Acknowledged (ackOf config i slot) sent)
        (fun slot sent => .acceptAck (ackOf config i slot) ∈ sent) (c.trace i) :=
  hc.everywhere (P := fun c i r => i ≠ config.leader →
      r.Ledger (fun slot s sent => s.Acknowledged (ackOf config i slot) sent)
        (fun slot sent => .acceptAck (ackOf config i slot) ∈ sent) (c.trace i))
    (fun _ _ i _ => ledger_initial i config _)
    (fun _ _ _ _ _ hapart hledger hother => hapart.trace_eq ▸ hledger hother)
    fun c c' i r m hc _ h hledger hother => by
      have hs := hc.reachable.history.sound
      have hattends := h.attends hs
      have hleader := h.not_isLeader hs hother
      rw [h.trace_self hs]
      refine hattends.ledger (accounting_acknowledged hattends.config_eq (h.id_eq hs) ?_)
        (hledger hother)
      rintro slot event ⟨hfits, hcame, -⟩
      refine ⟨hfits, ?_⟩
      rintro p rfl
      exact hattends.not_proposed hleader p hcame

/-! ### Word of a commit -/

theorem Announced.mono (h : c.Announced slot) (hsubset : c.handled ⊆ c'.handled) :
    c'.Announced slot := by
  obtain ⟨d, hd, hannounced⟩ := h
  exact ⟨d, hsubset hd, hannounced⟩

/-- A commit in flight has been announced. -/
theorem Reachable.announced_of_letter (hc : c.Reachable config bounds)
    (hmem : .toReplica i (.commit b) ∈ c.network.pool) : c.Announced b.slot := by
  refine hc.induct (P := fun c => ∀ i b, .toReplica i (.commit b) ∈ c.network.pool →
    c.Announced b.slot) (fun n hn i b hmem => ?_) (fun c c' hs hstep ih i b hmem => ?_) i b hmem
  · rw [Network.start_eq hn] at hmem
    simp [Chronicle.start, History.start] at hmem
  · have hsubset := hstep.handled_subset hs
    have hold : .toReplica i (.commit b) ∈ c.network.pool → c'.Announced b.slot := fun hmem =>
      (ih i b hmem).mono hsubset
    rcases hstep.quiet_or_handles hs with hquiet | ⟨id, r, m, h⟩
    · rcases hquiet.pool _ hmem with hmem | ⟨_, _, hletter, hclient⟩
      · exact hold hmem
      · obtain ⟨-, rfl⟩ := Letter.toReplica.inj hletter
        exact hclient.elim
    · rcases h.effect_of_letter hmem with hmem | hnew | ⟨_, hnew, -⟩ | ⟨_, hnew, -⟩
      · exact hold hmem
      · exact ⟨⟨r, m⟩, by simp [h.handled_eq], b.ballot, hnew⟩
      · simp at hnew
      · simp at hnew

/-- The certificate of a slot under way has completed if it could, a slot with a completed
certificate is committed, and the commit of a committed slot has been announced, here or
elsewhere. -/
def Decides (config : Config) (c : Chronicle) (r : Replica) (sent : List Effect) : Prop :=
  r.Ledger (fun slot s sent => s.Decided (c.Announced slot) ⟨config.ballot, slot⟩ sent)
    (fun slot sent => c.Announced slot ∨ .broadcast (.commit ⟨config.ballot, slot⟩) ∈ sent) sent

theorem Decides.mono (h : c.Decides config r sent) (hsubset : c.handled ⊆ c'.handled) :
    c'.Decides config r sent := by
  refine Ledger.mono h (fun slot s hs => ?_) fun slot _ hdone => ?_
  · exact ⟨hs.settles, fun hphase => (hs.announced hphase).imp_left fun h => h.mono hsubset⟩
  · exact hdone.imp_left fun h => h.mono hsubset

theorem ReachableBy.decides (hc : c.ReachableBy rule config bounds) :
    ∀ (i : ReplicaId) r, c.network.replicas[i]? = some r → c.Decides config r (c.trace i) := by
  refine hc.everywhere (P := fun c i r => c.Decides config r (c.trace i))
    (fun _ _ i => ledger_initial i config _) (fun c c' i r _ hapart hdecides => ?_)
    fun c c' i r m hc _ h hdecides => ?_
  · rw [hapart.trace_eq]
    exact hdecides.mono hapart.handled_subset
  · have hs := hc.reachable.history.sound
    have hattends := h.attends hs
    have hsubset : c.handled ⊆ c'.handled := h.handled_eq ▸ List.subset_append_left _ _
    rw [h.trace_self hs]
    refine hattends.ledger (accounting_decided hattends.config_eq ?_) (hdecides.mono hsubset)
    rintro slot b ⟨-, ⟨rfl, rfl⟩, -⟩
    exact (hc.reachable.announced_of_letter h.letter).mono hsubset

/-- In every run a replica that has announced a commit has committed the slot. -/
theorem ReachableBy.carries_announced (hc : c.ReachableBy rule config bounds) :
    ∀ (i : ReplicaId) r, c.network.replicas[i]? = some r → ∀ b,
      .broadcast (.commit b) ∈ c.trace i →
        b.ballot = config.ballot ∧ r.Carries b.slot fun s => s.phase = .commit :=
  hc.everywhere (P := fun c i r => ∀ b, .broadcast (.commit b) ∈ c.trace i →
      b.ballot = config.ballot ∧ r.Carries b.slot fun s => s.phase = .commit)
    (fun n _ i b hmem => by simp [trace_start] at hmem)
    (fun _ _ _ _ _ hapart hold => hapart.trace_eq ▸ hold)
    fun _ _ _ _ _ hc _ h hold b hmem => by
      have hs := hc.reachable.history.sound
      have hattends := h.attends hs
      rw [h.trace_self hs] at hmem
      rcases List.mem_append.1 hmem with hmem | hmem
      · exact ⟨(hold b hmem).1, hattends.carries lasting_committed (hold b hmem).2⟩
      · exact hattends.announced hmem

/-! ### Answers to weak commands -/

/-- Where only the leader takes weak commands, it has answered each that it has executed. -/
theorem ReachableBy.answered_weak (hc : c.ReachableBy rule config bounds)
    (hvariant : config.variant = .leaderOnly) :
    ∀ (i : ReplicaId) r, c.network.replicas[i]? = some r → i = config.leader →
      r.Ledger (fun _ s _ => s.Answers) (AnsweredWeak c.log i) (c.trace i) := by
  refine hc.everywhere (P := fun c i r => i = config.leader →
      r.Ledger (fun _ s _ => s.Answers) (AnsweredWeak c.log i) (c.trace i))
    (fun _ _ i _ => ledger_initial i config _)
    (fun _ _ _ _ _ hapart hledger hi => ?_) fun c c' i r m hc _ h hledger hi => ?_
  · rw [hapart.trace_eq, hapart.log_eq hi]
    exact hledger hi
  · have hs := hc.reachable.history.sound
    have hattends := h.attends hs
    have hleader := (h.isLeader_iff hs).2 hi
    rw [h.trace_self hs]
    have hgrown : r.Ledger (fun _ s _ => s.Answers) (AnsweredWeak c'.log i) (c.trace i) := by
      refine (hledger hi).mono (fun _ _ hs => hs) fun slot hslot hdone q hq hweak => ?_
      have hlt := Nat.lt_of_lt_of_le hslot hattends.follows.executed_le
      rw [hattends.log_eq, Log.request?_append_left _ hlt] at hq
      exact hdone q hq hweak
    refine hattends.ledger ?_ hgrown
    rw [hleader]
    refine accounting_answers (h.id_eq hs) ?_
    rintro slot event ⟨hfits, -, hanswered⟩
    constructor
    · rintro a rfl
      simpa using hfits.1
    · rintro p rfl hweak
      obtain ⟨hreply, hcausal, -⟩ := hanswered
      refine ⟨?_, ?_⟩
      · rw [hreply, hweak, hattends.config_eq, hvariant]
        rfl
      · rw [Bool.eq_false_iff]
        intro htrue
        obtain ⟨body, rfl⟩ := hcausal htrue
        have hsuits : config.variant = .everyReplica := hc.reachable.suited i _ h.letter
        rw [hvariant] at hsuits
        simp at hsuits

end Chronicle

end WitnessReplication
