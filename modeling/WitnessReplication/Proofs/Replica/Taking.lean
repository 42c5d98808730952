import WitnessReplication.Proofs.Certificate
import WitnessReplication.Proofs.Replica.Reporting

/-!
# What a slot has taken

A replica that handles an accept has accepted the slot, one that handles a commit has committed it,
and the leader that handles an acknowledgement has heard its sender. The slot carries this from
then on: an accepted slot stays accepted and a committed one committed, and only a proposal makes
the leader count acknowledgements anew, which is for a slot that the log does not have yet
(`Attends.slot_of_proposed`).
-/

namespace WitnessReplication.Replica

/-- The record of a slot has heard a replica's acknowledgement. -/
def LiveSlot.Hears (s : LiveSlot) (id : ReplicaId) : Prop :=
  ∃ c, s.certificate = some c ∧ c.Heard id

variable {log log' : Log} {config : Config} {issued : List Request} {base : Replica}
variable {slot : Slot} {id : ReplicaId} {fits : Slot → Event → Prop} {m : ReplicaMessage}

/-! ### What lasts -/

theorem lasting_accepted : Lasting fits slot fun s => s.accepted = true where
  apply r _ event _ h := r.accepted_apply slot event h
  awaited h := h

theorem lasting_committed : Lasting fits slot fun s => s.phase = .commit where
  apply r _ event _ h := r.phase_apply slot event h
  awaited h := h

/-- Whoever has been heard stays so as long as nothing is proposed. -/
theorem lasting_hears (hfits : ∀ p, ¬fits slot (.propose p)) :
    Lasting fits slot fun s => s.Hears id where
  apply r s event hfit h := by
    obtain ⟨c, hc, hheard⟩ := h
    cases event with
    | propose p => exact absurd hfit (hfits p)
    | accept a =>
        simp only [Replica.apply, onAccept]
        split <;> exact ⟨c, hc, hheard⟩
    | acceptAck a =>
        have hadded := hheard.add a.replica a
        simp only [Replica.apply, onAcceptAck, hc]
        split
        · exact ⟨_, by simp only [commitAsLeader, slot_commitSlot], hadded⟩
        · exact ⟨_, rfl, hadded⟩
    | commit b =>
        simp only [Replica.apply, slot_commitSlot]
        exact ⟨c, hc, hheard⟩
    | wake => exact ⟨c, hc, hheard⟩
  awaited h := h

/-- The leader that counts acknowledgements hears the one that it is handed. -/
theorem hears_acceptAck (r : Replica) (slot : Slot) {s : LiveSlot} (a : AcceptAck)
    (h : s.certificate.isSome = true) : (r.apply slot s (.acceptAck a)).2.1.Hears a.replica := by
  obtain ⟨c, hc⟩ := Option.isSome_iff_exists.1 h
  have hheard := c.heard_add a.replica a
  simp only [Replica.apply, onAcceptAck, hc]
  split
  · exact ⟨_, by simp only [commitAsLeader, slot_commitSlot], hheard⟩
  · exact ⟨_, rfl, hheard⟩

/-! ### Announcing a commit -/

/-- An event that makes a replica announce a commit has committed the slot. -/
theorem broadcast_apply {r : Replica} {s : LiveSlot} {event : Event} {b : Commit}
    (h : .broadcast (.commit b) ∈ (r.apply slot s event).2.2) :
    b = ⟨r.config.ballot, slot⟩ ∧ (r.apply slot s event).2.1.phase = .commit := by
  have hcommit : ∀ s : LiveSlot, .broadcast (.commit b) ∈ (r.commitAsLeader slot s).2.2 →
      b = ⟨r.config.ballot, slot⟩ := by
    intro s hmem
    rcases List.mem_cons.1 hmem with heq | hmem
    · simpa using heq
    · simpa using effects_commitSlot r slot s _ hmem
  cases event with
  | propose p =>
      simp only [Replica.apply, onPropose] at h ⊢
      split at h
      · rename_i hfired
        rw [if_pos hfired]
        exact ⟨hcommit _ h, by simp only [commitAsLeader, slot_commitSlot]⟩
      · simp at h
  | accept a =>
      simp only [Replica.apply, onAccept] at h
      split at h
      · simp at h
      · rcases List.mem_cons.1 h with he | hmem
        · simp at he
        · obtain ⟨_, he⟩ := effects_order r slot a.id a.weak _ hmem
          simp [orderedAck] at he
  | acceptAck a =>
      simp only [Replica.apply, onAcceptAck] at h ⊢
      split at h
      · simp at h
      · split at h
        · rename_i hfired
          rw [if_pos hfired]
          exact ⟨hcommit _ h, by simp only [commitAsLeader, slot_commitSlot]⟩
        · simp at h
  | commit c => simpa using effects_commitSlot r slot s _ h
  | wake => simp [Replica.apply] at h

/-- A replica that has announced a commit has committed the slot. -/
theorem kept_announced : Kept log base m fun r sent => ∀ b,
    .broadcast (.commit b) ∈ sent →
      b.ballot = base.config.ballot ∧ r.Carries b.slot fun s => s.phase = .commit where
  changed {r r' sent effects} hs h hc := by
    intro b hmem
    rcases List.mem_append.1 hmem with hmem | hmem
    · obtain ⟨hballot, hcarries⟩ := h b hmem
      exact ⟨hballot, hc.carries hs lasting_committed hcarries⟩
    · cases hc with
      | opened hlive hexec => simp at hmem
      | @took slot s event hlive happlied hstale hfit =>
          obtain ⟨rfl, hphase⟩ := broadcast_apply hmem
          exact ⟨congrArg Config.ballot hs.config_eq, .inr ⟨_, by simp, hphase⟩⟩
      | awaited hlive hexec => simp at hmem
      | executed hlive hx hturn =>
          rcases effects_execute hmem with he | he | he
          · simp at he
          · simp at he
          · obtain ⟨-, he | ⟨causal, he⟩⟩ := mem_answers he
            · simp [syncReply] at he
            · simp [weakReply] at he
  told _ _ _ h _ b hmem := h b (by simpa using hmem)
  announced _ h b hmem := h b (by simpa using hmem)
  noted _ h hnoted := by
    obtain ⟨⟨_, _, _, _, _, _, rfl⟩, -⟩ := hnoted
    exact h

/-! ### Handling a message -/

theorem handle_accept (r : Replica) (a : Accept) :
    (r.handle (.accept a)).1 = (r.route a.slot (.accept a)).1 := rfl

theorem handle_commit (r : Replica) (b : Commit) :
    (r.handle (.commit b)).1 = (r.route b.slot (.commit b)).1 := rfl

theorem handle_acceptAck {r : Replica} (hleader : r.isLeader = true) (a : AcceptAck) :
    (r.handle (.acceptAck a)).1 = (r.route a.slot (.acceptAck a)).1 := by
  simp [handle, respond, ackSteps, hleader, performAll, perform]

namespace Attends

/-- Only the slot that follows the log is proposed. -/
theorem slot_of_proposed (h : base.Attends config log issued m log') {p : Proposal}
    (hcame : (Event.propose p).CameIn base m slot) : slot = log.length := by
  have hmem : base.acceptFor slot p.id p.command p.weak ∈
      (base.handle m).2.filterMap Effect.accept? := List.mem_filterMap.2 ⟨_, hcame.2, rfl⟩
  rcases h.announcements with ⟨-, hnone⟩ | ⟨-, q, -, -, -, hone⟩
  · rw [hnone] at hmem
    simp at hmem
  · rw [hone] at hmem
    exact congrArg Accept.slot (List.mem_singleton.1 hmem)

/-- A replica that does not lead proposes nothing. -/
theorem not_proposed (h : base.Attends config log issued m log') (hleader : base.isLeader = false)
    (p : Proposal) : ¬(Event.propose p).CameIn base m slot := by
  intro hcame
  obtain ⟨hleads, -⟩ := h.serving.backed _ hcame.2 _ fun _ => Nat.le_refl _
  rw [hleader] at hleads
  simp at hleads

/-- A replica that announces a commit has committed the slot. -/
theorem announced {b : Commit} (h : base.Attends config log issued m log')
    (hmem : .broadcast (.commit b) ∈ (base.handle m).2) :
    b.ballot = config.ballot ∧ (base.handle m).1.Carries b.slot fun s => s.phase = .commit := by
  rw [← h.config_eq]
  exact h.keeps kept_announced (by simp) b hmem

/-- A replica that handles an accept has accepted the slot. -/
theorem accepted {a : Accept} (h : base.Attends config log issued (.accept a) log')
    (hunapplied : base.Unapplied) (hballot : a.ballot = config.ballot) :
    (base.handle (.accept a)).1.Carries a.slot fun s => s.accepted = true := by
  have hserving := Serving.start (h.follows.mono h.prefix_log) rfl (Eq.refl base.isLeader)
  have hfit : (Event.accept a).Fits log' base.isLeader a.slot := by
    have hbacked : (Event.accept a).Fits log base.isLeader a.slot := h.backed
    exact hbacked.mono h.prefix_log
  have hlasting : Lasting (fun slot event => event.Fits log' base.isLeader slot) a.slot
      fun s => s.accepted = true := lasting_accepted
  rw [handle_accept]
  refine carries_route (fun _ _ hfit => hfit) hserving hunapplied ?_ (by simp) hfit hlasting
    hlasting fun r' s _ => ?_
  · simp [Event.isStale, Event.ballot?, h.config_eq, hballot]
  · simp only [Replica.apply, onAccept]
    split
    · assumption
    · rfl

/-- A replica that handles a commit has committed the slot. -/
theorem committed {b : Commit} (h : base.Attends config log issued (.commit b) log')
    (hunapplied : base.Unapplied) (hballot : b.ballot = config.ballot) :
    (base.handle (.commit b)).1.Carries b.slot fun s => s.phase = .commit := by
  have hserving := Serving.start (h.follows.mono h.prefix_log) rfl (Eq.refl base.isLeader)
  have hlasting : Lasting (fun slot event => event.Fits log' base.isLeader slot) b.slot
      fun s => s.phase = .commit := lasting_committed
  rw [handle_commit]
  refine carries_route (fun _ _ hfit => hfit) hserving hunapplied ?_ (by simp) trivial hlasting
    hlasting fun r' s _ => ?_
  · simp [Event.isStale, Event.ballot?, h.config_eq, hballot]
  · simp only [Replica.apply, slot_commitSlot]

/-- The leader that handles an acknowledgement of a slot of the log has heard its sender. -/
theorem heard {a : AcceptAck} {q : Request} (h : base.Attends config log issued (.acceptAck a) log')
    (hleader : base.isLeader = true) (hunapplied : base.Unapplied)
    (hballot : a.ballot = config.ballot) (hq : log.request? a.slot = some q)
    (hdirects : base.Carries a.slot fun s => s.Directs q) :
    (base.handle (.acceptAck a)).1.Carries a.slot fun s => s.Hears a.replica := by
  have hserving := Serving.start (h.follows.mono h.prefix_log) rfl (Eq.refl base.isLeader)
  have hhanded : (Event.acceptAck a).Handed log' base (.acceptAck a) a.slot :=
    ⟨trivial, rfl, .inl rfl⟩
  have hold : Lasting (fun slot event => event.Handed log' base (.acceptAck a) slot) a.slot
      fun s => s.Directs q :=
    (lasting_directs (Log.request?_mono h.prefix_log hq)).mono fun _ hhanded => hhanded.1
  have hnew : Lasting (fun slot event => event.Handed log' base (.acceptAck a) slot) a.slot
      fun s => s.Hears a.replica := by
    refine lasting_hears fun p hproposed => ?_
    have hrequest := hproposed.2.1
    simp [ReplicaMessage.request?] at hrequest
  rw [handle_acceptAck hleader]
  refine carries_route (fun _ _ hfit => hfit.1) hserving hunapplied ?_ (by simp) hhanded hold hnew
    fun r' s hbefore => ?_
  · simp [Event.isStale, Event.ballot?, h.config_eq, hballot]
  · exact hears_acceptAck r' a.slot a (hbefore hdirects).2

/-- Whoever has been heard about a slot of the log stays so. -/
theorem hears (h : base.Attends config log issued m log') (hslot : slot < log.length)
    (hcarries : base.Carries slot fun s => s.Hears id) :
    (base.handle m).1.Carries slot fun s => s.Hears id := by
  refine h.carries_handed (lasting_hears fun p hhanded => ?_) hcarries
  rw [h.slot_of_proposed hhanded.2] at hslot
  exact Nat.lt_irrefl _ hslot

end Attends

end WitnessReplication.Replica
