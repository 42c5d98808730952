import WitnessReplication.Proofs.Replica.Certifying
import WitnessReplication.Proofs.Replica.Remembering
import WitnessReplication.Proofs.Replica.Taking

/-!
# What a slot owes

When a slot gets somewhere, the replica owes others word of it: an acknowledgement when it accepts
a slot, word of the commit when it commits one, an answer when it executes a weak command. A ledger
(`Replica.Ledger`) relates where each slot is to what has been sent. It stays right if every event
that a slot takes, and its execution, pays what it owes (`Accounting`).
-/

namespace WitnessReplication.Replica

open Quorum

/-- What has been sent agrees with where each slot is: with the record of a slot under way, and
with having executed it. -/
structure Ledger (record : Slot → LiveSlot → List Effect → Prop) (done : Slot → List Effect → Prop)
    (r : Replica) (sent : List Effect) : Prop where
  live : ∀ {slot : Slot} {s}, r.live[slot]? = some s → record slot s sent
  executed : ∀ {slot}, slot < r.executed → done slot sent

/-- Whatever happens to a slot pays what it owes. -/
structure Accounting (fits : Slot → Event → Prop) (config : Config) (leads : Bool) (log : Log)
    (base : Replica) (record : Slot → LiveSlot → List Effect → Prop)
    (done : Slot → List Effect → Prop) : Prop where
  more : ∀ {slot s sent sent'}, sent ⊆ sent' → record slot s sent → record slot s sent'
  more_done : ∀ {slot sent sent'}, sent ⊆ sent' → done slot sent → done slot sent'
  opened : ∀ slot sent, record slot {} sent
  awaited : ∀ {slot s sent}, record slot s sent → record slot { s with awaited := true } sent
  took : ∀ {r : Replica} {slot s event sent}, Serving config leads log base r [] →
    fits slot event → record slot s sent →
      record slot (r.apply slot s event).2.1 (sent ++ (r.apply slot s event).2.2)
  executed : ∀ {r : Replica} {slot : Slot} {s id c sent}, Serving config leads log base r [] →
    r.live[slot]? = some s → s.executable? = some (id, c) → record slot s sent →
      done slot (sent ++ (r.execute slot s id c).2)

variable {record : Slot → LiveSlot → List Effect → Prop} {done : Slot → List Effect → Prop}
variable {log log' : Log} {config : Config} {leads : Bool} {issued : List Request}
variable {base r r' : Replica} {m : ReplicaMessage} {slot : Slot} {s : LiveSlot} {event : Event}
variable {sent sent' effects : List Effect} {fits : Slot → Event → Prop}

/-! ### Keeping a ledger -/

theorem ledger_initial (id : ReplicaId) (config : Config) (sent : List Effect) :
    (initial id config).Ledger record done sent where
  live hs := by simp [initial] at hs
  executed hslot := absurd hslot (Nat.not_lt_zero _)

theorem Ledger.congr (h : r.Ledger record done sent) (hlive : r'.live = r.live)
    (hexec : r'.executed = r.executed) : r'.Ledger record done sent where
  live hs := h.live (hlive ▸ hs)
  executed hslot := h.executed (hexec ▸ hslot)

theorem Ledger.mono {record' : Slot → LiveSlot → List Effect → Prop}
    {done' : Slot → List Effect → Prop} (h : r.Ledger record done sent)
    (hrecord : ∀ slot s, record slot s sent → record' slot s sent')
    (hdone : ∀ slot < r.executed, done slot sent → done' slot sent') :
    r.Ledger record' done' sent' where
  live hs := hrecord _ _ (h.live hs)
  executed hslot := hdone _ hslot (h.executed hslot)

/-- Writing a record that agrees with what has been sent. -/
theorem Ledger.putSlot (h : r.Ledger record done sent) (hs : record slot s sent) :
    (r.putSlot slot s).Ledger record done sent where
  live hs' := by
    rcases of_live_putSlot hs' with ⟨rfl, rfl⟩ | hs'
    · exact hs
    · exact h.live hs'
  executed := h.executed

theorem Change.ledger (h : Accounting fits config leads log base record done)
    (hs : Serving config leads log base r []) (hc : Change fits r effects r')
    (hledger : r.Ledger record done sent) : r'.Ledger record done (sent ++ effects) := by
  have hmore : ∀ more : List Effect, r.Ledger record done (sent ++ more) := fun more =>
    hledger.mono (fun _ _ => h.more (List.subset_append_left _ _))
      fun _ _ => h.more_done (List.subset_append_left _ _)
  cases hc with
  | opened hlive hexec => exact (hmore _).putSlot (h.opened _ _)
  | @took slot s event hlive happlied hstale hfit =>
      have happly := (hmore (r.apply slot s event).2.2).congr (live_apply r slot s event)
        (executed_apply r slot s event)
      exact happly.putSlot (h.took hs hfit (hledger.live hlive))
  | awaited hlive hexec => exact (hmore []).putSlot (h.awaited ((hmore []).live hlive))
  | @executed slot s id c hlive hx hturn =>
      constructor
      case live => exact fun hs' => (hmore _).live (of_live_executed hs')
      case executed =>
        intro other hother
        have hnext : ((r.execute slot s id c).1.dropSlot slot).executed = slot + 1 :=
          r.executed_execute id c slot s
        rcases Nat.lt_succ_iff_lt_or_eq.1 (hnext ▸ hother) with hlt | rfl
        · exact (hmore _).executed (Nat.lt_of_lt_of_le hlt hturn)
        · exact h.executed hs hlive hx (hledger.live hlive)

/-- A ledger that every event of a message keeps right is right after the message. -/
theorem Attends.ledger (h : base.Attends config log issued m log')
    (hrule : Accounting (fun slot event => event.Fits log' base.isLeader slot ∧
      event.Planned base m slot) base.config base.isLeader log' base record done)
    (hledger : base.Ledger record done sent) :
    (base.handle m).1.Ledger record done (sent ++ (base.handle m).2) := by
  have hnoted : (base.noted m).Ledger record done (sent ++ []) := by
    obtain ⟨⟨_, _, _, _, _, _, hframe⟩, -⟩ := noted_noted base m
    rw [hframe, List.append_nil]
    exact hledger.congr rfl rfl
  obtain ⟨effects, hsplits, hafter⟩ := h.preserves
    (P := fun r effects => r.Ledger record done (sent ++ effects)) hnoted
    fun hs hp hc => by
      rw [← List.append_assoc]
      exact hc.ledger hrule hs hp
  have hsubset : sent ++ effects ⊆ sent ++ (base.handle m).2 :=
    List.append_subset.2 ⟨List.subset_append_left _ _,
      List.Subset.trans hsplits.subset (List.subset_append_right _ _)⟩
  exact hafter.mono (fun _ _ => hrule.more hsubset) fun _ _ => hrule.more_done hsubset

/-! ### Acknowledgements -/

/-- A record that has accepted, or knows its command, does both, and an acknowledgement of it has
been sent. -/
def LiveSlot.Acknowledged (ack : AcceptAck) (s : LiveSlot) (sent : List Effect) : Prop :=
  s.accepted = true ∨ s.id.isSome = true →
    .acceptAck ack ∈ sent ∧ s.id.isSome = true ∧ s.command.isSome = true

/-- A replica that is handed no proposal acknowledges what it accepts. -/
theorem acknowledged_apply (h : s.Acknowledged ⟨r.config.ballot, slot, r.id⟩ sent)
    (hfit : event.Fits log leads slot) (hproposed : ∀ p, event ≠ .propose p) :
    (r.apply slot s event).2.1.Acknowledged ⟨r.config.ballot, slot, r.id⟩
      (sent ++ (r.apply slot s event).2.2) := by
  have hmore : ∀ s' : LiveSlot, s'.accepted = s.accepted → s'.id = s.id →
      s'.command = s.command → ∀ more,
      s'.Acknowledged ⟨r.config.ballot, slot, r.id⟩ (sent ++ more) := by
    intro s' haccepted hid hcommand more
    unfold LiveSlot.Acknowledged
    rw [haccepted, hid, hcommand]
    exact fun hknown => (h hknown).imp_left (List.mem_append_left _)
  obtain ⟨_, _, hrecord⟩ := r.record_apply slot s event
  cases event with
  | propose p => exact absurd rfl (hproposed p)
  | accept a =>
      obtain ⟨-, c, hc, -⟩ := hfit
      simp only [apply, onAccept]
      split
      · exact hmore s rfl rfl rfl _
      · exact fun _ => ⟨by simp, rfl, by simp [hc]⟩
  | _ => exact hrecord ▸ hmore _ rfl rfl rfl _

theorem accounting_acknowledged {config : Config} {id : ReplicaId} (hconfig : base.config = config)
    (hid : base.id = id) (hfits : ∀ slot event, fits slot event →
      event.Fits log leads slot ∧ ∀ p, event ≠ .propose p) :
    Accounting fits base.config leads log base
      (fun slot s sent => s.Acknowledged ⟨config.ballot, slot, id⟩ sent)
      (fun slot sent => .acceptAck ⟨config.ballot, slot, id⟩ ∈ sent) where
  more hsubset h hknown := (h hknown).imp_left fun hmem => hsubset hmem
  more_done hsubset hmem := hsubset hmem
  opened slot sent hknown := by simp at hknown
  awaited h := h
  took {r slot s event sent} hs hfit h := by
    subst hconfig hid
    rw [← hs.config_eq, ← hs.id_eq] at h ⊢
    exact acknowledged_apply h (hfits slot event hfit).1 (hfits slot event hfit).2
  executed {r slot s id c sent} hs hlive hx h := by
    obtain ⟨-, -, hid, -⟩ := LiveSlot.executable?_eq_some hx
    exact List.mem_append_left _ (h (.inr (by simp [hid]))).1

/-! ### Commits -/

/-- The certificate of a record has completed if it can, which has committed the slot, and a
committed slot is known to be, or its commit has been sent. -/
structure LiveSlot.Decided (known : Prop) (b : Commit) (s : LiveSlot) (sent : List Effect) :
    Prop where
  settles : ∀ c, s.certificate = some c → c.Settles ∧ (c.fired = true → s.phase = .commit)
  announced : s.phase = .commit → known ∨ .broadcast (.commit b) ∈ sent

variable {known : Prop} {b : Commit}

theorem LiveSlot.Decided.more (h : s.Decided known b sent) (hsubset : sent ⊆ sent') :
    s.Decided known b sent' where
  settles := h.settles
  announced hphase := (h.announced hphase).imp_right fun hmem => hsubset hmem

/-- Counting a vote commits the slot if that completes the certificate. -/
theorem decided_count {c : Certificate AcceptAck} {id : ReplicaId} {a : AcceptAck}
    (hsettles : c.Settles) (hfired : c.fired = true → s.phase = .commit)
    (hannounced : s.phase = .commit → known ∨ .broadcast (.commit ⟨r.config.ballot, slot⟩) ∈ sent)
    (hcertificate : s.certificate = some (c.add id a).1)
    {result : Replica × LiveSlot × List Effect}
    (hresult : (if (c.add id a).2.isSome then r.commitAsLeader slot s else (r, s, [])) = result) :
    result.2.1.Decided known ⟨r.config.ballot, slot⟩ (sent ++ result.2.2) := by
  have hadded := hsettles.add id a
  subst hresult
  split
  · constructor
    case settles =>
      intro c' hc'
      simp only [commitAsLeader, slot_commitSlot] at hc' ⊢
      obtain rfl := Option.some.inj (hcertificate.symm.trans hc')
      exact ⟨hadded, fun _ => trivial⟩
    case announced => exact fun _ => .inr (by simp [commitAsLeader])
  · rename_i hopen
    constructor
    case settles =>
      intro c' hc'
      obtain rfl := Option.some.inj (hcertificate.symm.trans hc')
      refine ⟨hadded, fun hdone => hfired ?_⟩
      rw [Certificate.fired_add] at hdone
      simpa [hopen] using hdone
    case announced => simpa using hannounced

/-- A slot that takes an event is decided, if only known slots are committed by others. -/
theorem decided_apply (h : s.Decided known ⟨r.config.ballot, slot⟩ sent)
    (hcommit : ∀ b, event = .commit b → known) :
    (r.apply slot s event).2.1.Decided known ⟨r.config.ballot, slot⟩
      (sent ++ (r.apply slot s event).2.2) := by
  have hmajority : 0 < Threshold.majority.size r.config.replicas := Nat.succ_pos _
  cases event with
  | propose p =>
      refine decided_count (Certificate.settles_new _ _ _ (.inl hmajority)) ?_ ?_ rfl rfl
      · simp [Certificate.new]
      · exact fun hphase => h.announced (phase_of_begun hphase)
  | accept a =>
      simp only [apply, onAccept]
      split
      · exact h.more (List.subset_append_left _ _)
      · constructor
        case settles =>
          intro c hc
          refine ⟨(h.settles c hc).1, fun hfired => ?_⟩
          simp [(h.settles c hc).2 hfired]
        case announced =>
          intro hphase
          exact (h.announced (phase_of_begun hphase)).imp_right (List.mem_append_left _)
  | acceptAck a =>
      simp only [apply, onAcceptAck]
      split
      · exact h.more (List.subset_append_left _ _)
      · rename_i c hc
        obtain ⟨hsettles, hfired⟩ := h.settles c hc
        exact decided_count (s := { s with certificate := some (c.add a.replica a).1 })
          hsettles hfired h.announced rfl rfl
  | commit b =>
      simp only [apply, slot_commitSlot]
      exact ⟨fun c hc => ⟨(h.settles c hc).1, fun _ => rfl⟩, fun _ => .inl (hcommit b rfl)⟩
  | wake => exact h.more (List.subset_append_left _ _)

theorem accounting_decided {config : Config} {known : Slot → Prop} (hconfig : base.config = config)
    (hfits : ∀ slot b, fits slot (.commit b) → known slot) :
    Accounting fits base.config leads log base
      (fun slot s sent => s.Decided (known slot) ⟨config.ballot, slot⟩ sent)
      (fun slot sent => known slot ∨ .broadcast (.commit ⟨config.ballot, slot⟩) ∈ sent) where
  more hsubset h := h.more hsubset
  more_done hsubset h := h.imp_right fun hmem => hsubset hmem
  opened slot sent := ⟨by simp, by simp⟩
  awaited h := ⟨h.settles, h.announced⟩
  took {r slot s event sent} hs hfit h := by
    subst hconfig
    rw [← hs.config_eq] at h ⊢
    refine decided_apply h fun b hb => ?_
    subst hb
    exact hfits slot b hfit
  executed {r slot s id c sent} hs hlive hx h := by
    obtain ⟨-, hphase, -, -⟩ := LiveSlot.executable?_eq_some hx
    exact (h.announced hphase).imp_right (List.mem_append_left _)

/-! ### Answers to weak commands -/

/-- The leader that answers weak commands when they execute has answered those that have. -/
def AnsweredWeak (log : Log) (id : ReplicaId) (slot : Slot) (sent : List Effect) : Prop :=
  ∀ q, log.request? slot = some q → q.weak = true →
    ∃ value, .tell q.id.client (.weakReply ⟨id, q.id, value⟩) ∈ sent

/-- A slot of a weak command answers it when it executes, and not as a causal one. -/
def LiveSlot.Answers (s : LiveSlot) : Prop :=
  s.weak = true → s.reply = true ∧ s.causal = false

/-- Only a proposal changes how a slot answers, at a replica that is handed no accept. -/
theorem answers_apply (r : Replica) (slot : Slot) (h : s.Answers)
    (haccept : ∀ a, event ≠ .accept a)
    (hproposed : ∀ p, event = .propose p → p.weak = true → p.reply = true ∧ p.causal = false) :
    (r.apply slot s event).2.1.Answers := by
  obtain ⟨_, _, hrecord⟩ := r.record_apply slot s event
  rw [hrecord]
  cases event with
  | propose p => exact hproposed p rfl
  | accept a => exact absurd rfl (haccept a)
  | _ => exact h

theorem accounting_answers {i : ReplicaId} (hid : base.id = i)
    (hfits : ∀ slot event, fits slot event → (∀ a, event ≠ .accept a) ∧
      ∀ p, event = .propose p → p.weak = true → p.reply = true ∧ p.causal = false) :
    Accounting fits config true log base (fun _ s _ => s.Answers) (AnsweredWeak log i) where
  more _ h := h
  more_done hsubset h q hq hweak := (h q hq hweak).imp fun _ hmem => hsubset hmem
  opened slot sent hweak := by simp at hweak
  awaited h := h
  took {r slot s event sent} _ hfit h :=
    answers_apply r slot h (hfits slot event hfit).1 (hfits slot event hfit).2
  executed {r slot s id c sent} hs hlive hx h := by
    obtain ⟨-, -, hsid, hsc⟩ := LiveSlot.executable?_eq_some hx
    intro q hq hweak
    obtain rfl := Option.some.inj (hq.symm.trans (hs.follows.live_fits hlive id c hsid hsc))
    obtain ⟨hreply, hcausal⟩ := h hweak
    have hafter : (r.execute slot s id c).1.isLeader = true ∧
        (r.execute slot s id c).1.id = base.id := by
      obtain ⟨_, _, _, _, _, -, hframe⟩ := r.execute_frame id c slot s
      rw [hframe]
      exact ⟨hs.leads_eq, hs.id_eq⟩
    refine ⟨(r.store.execute c).2, List.mem_append_right _ ?_⟩
    rw [effects_execute_eq]
    generalize (r.execute slot s id c).1 = r' at hafter
    obtain ⟨hleader, hsame⟩ := hafter
    refine List.mem_append_right _ ?_
    have hweak : s.weak = true := hweak
    simp [answers, weakReply, hleader, hweak, hreply, hcausal, hsame, hid]

end WitnessReplication.Replica
