import WitnessReplication.Proofs.Certificate
import WitnessReplication.Proofs.Replica.Carrying

/-!
# What a commit rests on

A slot is chosen once a majority has voted for it, the leader among them. The leader counts the
votes of each slot in a certificate and announces the commit when that completes, and the other
replicas commit what is announced, so that whoever has committed a slot, or says so, does it for
a chosen one (`Certifies`). What counts as a vote is left open: an event is certified if the vote
that it stands for was cast (`Event.Certified`).
-/

namespace WitnessReplication.Replica

open Quorum

/-- A majority has voted for a slot, the leader among them. -/
def Chosen (config : Config) (voted : Slot → ReplicaId → Prop) (slot : Slot) : Prop :=
  Attained config.majority config.leader (voted slot)

/-- The votes that a slot has counted were cast, that of the leader among them. -/
def LiveSlot.Certifies (config : Config) (voted : Slot → ReplicaId → Prop) (slot : Slot)
    (s : LiveSlot) : Prop :=
  ∀ c, s.certificate = some c →
    c.Counts config.majority config.leader (voted slot) ∧ config.leader ∈ c.senders

/-- A replica has committed only chosen slots, has announced only such commits and has counted
only votes that were cast. -/
structure Certifies (config : Config) (voted : Slot → ReplicaId → Prop) (r : Replica)
    (sent : List Effect) : Prop where
  executed : ∀ slot < r.executed, Chosen config voted slot
  committed : ∀ slot ∈ r.committed, Chosen config voted slot
  phase : ∀ (slot : Slot) s, r.live[slot]? = some s → s.phase = .commit → Chosen config voted slot
  certificate : ∀ (slot : Slot) s, r.live[slot]? = some s → s.Certifies config voted slot
  announced : ∀ b, .broadcast (.commit b) ∈ sent → Chosen config voted b.slot

/-- What an event at replica `id` stands for has happened: the leader has voted for what it
proposes, who acknowledges has voted, and what is committed is chosen. -/
def Event.Certified (config : Config) (voted : Slot → ReplicaId → Prop) (id : ReplicaId)
    (slot : Slot) : Event → Prop
  | .propose _ => id = config.leader ∧ voted slot id
  | .acceptAck a => voted slot a.replica
  | .commit _ => Chosen config voted slot
  | .accept _ => True
  | .wake => True

/-- What a slot has become, and has sent, rests on chosen slots and cast votes. -/
structure Certified (config : Config) (voted : Slot → ReplicaId → Prop) (slot : Slot)
    (result : Replica × LiveSlot × List Effect) : Prop where
  committed : ∀ other ∈ result.1.committed, Chosen config voted other
  phase : result.2.1.phase = .commit → Chosen config voted slot
  certificate : result.2.1.Certifies config voted slot
  announced : ∀ b, .broadcast (.commit b) ∈ result.2.2 → Chosen config voted b.slot

variable {config : Config} {voted voted' : Slot → ReplicaId → Prop} {r r' base : Replica}
variable {slot : Slot} {s : LiveSlot} {event : Event} {sent effects : List Effect}
variable {log : Log} {m : ReplicaMessage}

theorem Certifies.mono (h : r.Certifies config voted sent)
    (hvoted : ∀ slot id, voted slot id → voted' slot id) : r.Certifies config voted' sent where
  executed slot hslot := (h.executed slot hslot).mono (hvoted slot)
  committed slot hslot := (h.committed slot hslot).mono (hvoted slot)
  phase slot s hs hphase := (h.phase slot s hs hphase).mono (hvoted slot)
  certificate slot s hs c hc :=
    ⟨((h.certificate slot s hs c hc).1).mono (hvoted slot), (h.certificate slot s hs c hc).2⟩
  announced b hb := (h.announced b hb).mono (hvoted b.slot)

theorem certifies_initial (id : ReplicaId) :
    (initial id config).Certifies config voted [] where
  executed slot hslot := absurd hslot (Nat.not_lt_zero slot)
  committed slot hslot := by simp [initial] at hslot
  phase slot s hs := by simp [initial] at hs
  certificate slot s hs := by simp [initial] at hs
  announced b hb := by simp at hb

/-! ### Taking an event -/

/-- Committing a chosen slot. -/
theorem Certified.commitSlot (hcommitted : ∀ slot ∈ r.committed, Chosen config voted slot)
    (hs : s.Certifies config voted slot) (hchosen : Chosen config voted slot) :
    Certified config voted slot (r.commitSlot slot s) := by
  unfold Replica.commitSlot
  split
  · exact ⟨hcommitted, fun _ => hchosen, hs, by simp⟩
  · refine ⟨fun other hother => ?_, fun _ => hchosen, hs, by simp⟩
    rcases Std.ExtTreeSet.mem_insert.1 hother with heq | hother
    · exact Std.LawfulEqOrd.eq_of_compare heq ▸ hchosen
    · exact hcommitted other hother

theorem Certified.commitAsLeader (hcommitted : ∀ slot ∈ r.committed, Chosen config voted slot)
    (hs : s.Certifies config voted slot) (hchosen : Chosen config voted slot) :
    Certified config voted slot (r.commitAsLeader slot s) := by
  have hcommit := Certified.commitSlot hcommitted hs hchosen
  refine ⟨hcommit.committed, hcommit.phase, hcommit.certificate, fun b hb => ?_⟩
  simp only [Replica.commitAsLeader, List.mem_cons, Effect.broadcast.injEq,
    ReplicaMessage.commit.injEq] at hb
  rcases hb with rfl | hb
  · exact hchosen
  · exact hcommit.announced b hb

/-- Counting a cast vote in a certificate that has, or now gets, the leader's commits the slot if
that completes the certificate. -/
theorem Certified.count {c : Certificate AcceptAck} {a : AcceptAck} {id : ReplicaId}
    (hcommitted : ∀ slot ∈ r.committed, Chosen config voted slot)
    (hphase : s.phase = .commit → Chosen config voted slot)
    (hc : c.Counts config.majority config.leader (voted slot)) (hid : voted slot id)
    (hleader : config.leader ∈ (c.add id a).1.senders)
    (hcertificate : s.certificate = some (c.add id a).1) :
    Certified config voted slot
      (if (c.add id a).2.isSome then r.commitAsLeader slot s else (r, s, [])) := by
  have hs : s.Certifies config voted slot := by
    intro c' hc'
    obtain rfl : (c.add id a).1 = c' := Option.some.inj (hcertificate.symm.trans hc')
    exact ⟨hc.add hid a, hleader⟩
  split
  · rename_i hfired
    obtain ⟨q, hq⟩ := Option.isSome_iff_exists.1 hfired
    exact .commitAsLeader hcommitted hs (hc.attained hid hq hleader)
  · exact ⟨hcommitted, hphase, hs, by simp⟩

/-- A certificate that counts its first vote has that. -/
theorem mem_senders_add_new {α : Type} (rule : Threshold) (replicas : Nat) (leader : ReplicaId)
    (required : Bool) (id : ReplicaId) (message : α) :
    id ∈ ((Certificate.new rule replicas leader required).add id message).1.senders := by
  unfold Certificate.add
  rw [if_neg (by simp [Certificate.new, Certificate.senders])]
  dsimp only
  split <;> simp [Certificate.senders]

/-- A slot that begins to be replicated is committed only if it was. -/
theorem phase_of_begun {phase : Phase}
    (h : (if phase = .start then .accept else phase) = .commit) : phase = .commit := by
  split at h
  · simp at h
  · exact h

/-- A slot that takes a certified event rests on chosen slots and cast votes. -/
theorem Certifies.apply (h : r.Certifies config voted sent) (hconfig : r.config = config)
    (hs : r.live[slot]? = some s) (hevent : event.Certified config voted r.id slot) :
    Certified config voted slot (r.apply slot s event) := by
  have hphase := h.phase slot s hs
  have hcertificate := h.certificate slot s hs
  subst hconfig
  cases event with
  | propose p =>
      obtain ⟨hid, hvoted⟩ := hevent
      apply Certified.count h.committed ?_ (.new .majority _ _ false) hvoted
      · rw [← hid]
        exact mem_senders_add_new ..
      · rfl
      · exact fun hcommit => hphase (phase_of_begun hcommit)
  | accept a =>
      have hordered : ∀ r' : Replica, r'.committed = r.committed →
          ∀ other ∈ r'.committed, Chosen r.config voted other := by
        intro r' hr' other hother
        exact h.committed other (hr' ▸ hother)
      simp only [Replica.apply, onAccept]
      split
      · exact ⟨h.committed, hphase, hcertificate, by simp⟩
      · constructor
        case committed =>
          apply hordered
          unfold order
          split <;> rfl
        case phase => exact fun hcommit => hphase (phase_of_begun hcommit)
        case certificate => exact hcertificate
        case announced =>
          intro b hb
          rcases List.mem_cons.1 hb with hb | hb
          · simp at hb
          · obtain ⟨id, he⟩ := effects_order r slot a.id a.weak _ hb
            simp [orderedAck] at he
  | acceptAck a =>
      simp only [Replica.apply, onAcceptAck]
      split
      · exact ⟨h.committed, hphase, hcertificate, by simp⟩
      · rename_i c hc
        obtain ⟨hcounts, hleader⟩ := hcertificate c hc
        exact .count h.committed hphase hcounts hevent
          (Certificate.mem_senders_add_of_mem hleader _ _) rfl
  | commit b => exact .commitSlot h.committed hcertificate hevent
  | wake => exact ⟨h.committed, hphase, hcertificate, by simp [Replica.apply]⟩

/-! ### What every change keeps -/

/-- Writing a record that rests on chosen slots and cast votes. -/
theorem Certifies.putSlot {sent' : List Effect} (h : r.Certifies config voted sent)
    (hphase : s.phase = .commit → Chosen config voted slot)
    (hcertificate : s.Certifies config voted slot)
    (hannounced : ∀ b, .broadcast (.commit b) ∈ sent' → Chosen config voted b.slot) :
    (r.putSlot slot s).Certifies config voted (sent ++ sent') := by
  constructor
  case executed => exact h.executed
  case committed => exact h.committed
  case phase =>
    intro other s' hs'
    rcases of_live_putSlot hs' with ⟨rfl, rfl⟩ | hs'
    · exact hphase
    · exact h.phase other s' hs'
  case certificate =>
    intro other s' hs'
    rcases of_live_putSlot hs' with ⟨rfl, rfl⟩ | hs'
    · exact hcertificate
    · exact h.certificate other s' hs'
  case announced =>
    intro b hb
    rcases List.mem_append.1 hb with hb | hb
    · exact h.announced b hb
    · exact hannounced b hb

theorem committed_execute (r : Replica) (slot : Slot) (s : LiveSlot) (id : CommandId)
    (c : Command) : (r.execute slot s id c).1.committed = r.committed.erase slot := by
  rw [execute_eq]

/-- A slot that executes was committed. -/
theorem Certifies.execute {id : CommandId} {c : Command} (h : r.Certifies config voted sent)
    (hs : r.live[slot]? = some s) (hx : s.executable? = some (id, c)) (hturn : slot ≤ r.executed) :
    ((r.execute slot s id c).1.dropSlot slot).Certifies config voted
      (sent ++ (r.execute slot s id c).2) := by
  obtain ⟨-, hcommit, -, -⟩ := LiveSlot.executable?_eq_some hx
  have hchosen := h.phase slot s hs hcommit
  constructor
  case executed =>
    intro other hother
    rcases Nat.lt_succ_iff_lt_or_eq.1 hother with hlt | rfl
    · exact h.executed other (Nat.lt_of_lt_of_le hlt hturn)
    · exact hchosen
  case committed =>
    intro other hother
    change other ∈ (r.execute slot s id c).1.committed at hother
    rw [committed_execute] at hother
    exact h.committed other (Std.ExtTreeSet.mem_of_mem_erase hother)
  case phase => exact fun other s' hs' => h.phase other s' (of_live_executed hs')
  case certificate => exact fun other s' hs' => h.certificate other s' (of_live_executed hs')
  case announced =>
    intro b hb
    rcases List.mem_append.1 hb with hb | hb
    · exact h.announced b hb
    · rcases effects_execute hb with he | he | he
      · simp at he
      · simp at he
      · obtain ⟨-, he | ⟨causal, he⟩⟩ := mem_answers he
        · simp [syncReply] at he
        · simp [weakReply] at he

/-- Every change with certified events leaves a replica resting on chosen slots. -/
theorem Change.certifies (h : r.Certifies config voted sent) (hconfig : r.config = config)
    (hc : Change (fun slot event => event.Certified config voted r.id slot) r effects r') :
    r'.Certifies config voted (sent ++ effects) := by
  cases hc with
  | opened hlive hexec =>
      apply h.putSlot
      · simp
      · intro c hc
        simp at hc
      · simp
  | @took slot s event hs happlied hstale hfit =>
      have happly := h.apply hconfig hs hfit
      obtain ⟨committed, ordered, hframe⟩ := r.apply_frame slot s event
      have hr : (r.apply slot s event).1.Certifies config voted sent := by
        refine ⟨?_, happly.committed, ?_, ?_, h.announced⟩ <;> rw [hframe]
        · exact h.executed
        · exact h.phase
        · exact h.certificate
      exact hr.putSlot happly.phase happly.certificate happly.announced
  | @awaited slot s hs hexec =>
      apply h.putSlot
      · exact h.phase slot s hs
      · exact h.certificate slot s hs
      · simp
  | executed hs hx hturn => exact h.execute hs hx hturn

/-- What a commit rests on is kept by all that a replica does with a message. -/
theorem kept_certifies (hconfig : base.config = config)
    (hevents : ∀ slot (event : Event), event.Handed log base m slot →
      event.Certified config voted base.id slot) :
    Kept log base m (Certifies config voted) where
  changed hs h hc := by
    refine Change.certifies h (hs.config_eq.trans hconfig) (hc.mono fun slot event hhanded => ?_)
    rw [hs.id_eq]
    exact hevents slot event hhanded
  told client message _ h _ :=
    ⟨h.executed, h.committed, h.phase, h.certificate, fun b hb => h.announced b (by simpa using hb)⟩
  announced body h :=
    ⟨h.executed, h.committed, h.phase, h.certificate, fun b hb => h.announced b (by simpa using hb)⟩
  noted _ h hnoted := by
    obtain ⟨⟨_, _, _, _, _, _, rfl⟩, -⟩ := hnoted
    exact ⟨h.executed, h.committed, h.phase, h.certificate, h.announced⟩

end WitnessReplication.Replica
