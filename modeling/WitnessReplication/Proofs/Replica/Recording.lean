import WitnessReplication.Proofs.Counting
import WitnessReplication.Proofs.Replica.Replying

/-!
# What a replica records

A replica that does not lead records a strong command unless it has it on record, and a weak one
where every replica takes weak commands (`Replica.records?`). Whether a relation holds between the
record and the witness is up to two operations, entering the record and leaving it, whatever else
the replica does (`Attends.relates`). The verdict of the replica on a strong command is that of
the witness on what is on record before the command (`Attends.verdict`).
-/

namespace WitnessReplication.Replica

/-- The request that a message makes a replica that does not lead record. -/
def records? (r : Replica) (m : ReplicaMessage) : Option Request :=
  m.request?.filter fun q =>
    if q.weak then decide (r.config.variant = .everyReplica) else !r.witnessed.contains q.id

/-- A relation between record and witness survives the retirement of a recorded command. -/
def Retires (I : Std.ExtTreeMap CommandId Witnessed → Witness → Prop) : Prop :=
  ∀ {known : Std.ExtTreeMap CommandId Witnessed} {w : Witness} {id : CommandId} {x : Witnessed},
    w.Tallies known → I known w → known[id]? = some x →
      I (known.erase id) (w.retire id x.command x.strong)

variable {I : Std.ExtTreeMap CommandId Witnessed → Witness → Prop}
variable {log log' : Log} {config : Config} {issued : List Request} {base r r' : Replica}
variable {m : ReplicaMessage} {q : Request} {id : CommandId} {effects : List Effect}
variable {fits : Slot → Event → Prop}

theorem request?_of_records? (h : r.records? m = some q) :
    m.request? = some q ∧ (q.weak = true → r.config.variant = .everyReplica) ∧
      (q.weak = false → q.id ∉ r.witnessed) := by
  obtain ⟨hm, hkind⟩ := Option.filter_eq_some_iff.1 h
  cases hweak : q.weak with
  | true => exact ⟨hm, fun _ => by simpa [hweak] using hkind, by simp⟩
  | false =>
      refine ⟨hm, by simp, fun _ => ?_⟩
      rw [← Std.ExtTreeMap.contains_iff_mem, Bool.not_eq_true]
      simpa [hweak] using hkind

/-! ### Entering the record -/

/-- What witnessing a command does to record and witness depends on these and the results only. -/
theorem recordWitness_congr (hwitness : r'.witness = r.witness)
    (hwitnessed : r'.witnessed = r.witnessed) (hvalues : r'.values = r.values) (id : CommandId)
    (c : Command) (strong : Bool) :
    (r'.recordWitness id c strong).1.witness = (r.recordWitness id c strong).1.witness ∧
      (r'.recordWitness id c strong).1.witnessed = (r.recordWitness id c strong).1.witnessed := by
  unfold recordWitness
  dsimp only
  rw [hwitness, hwitnessed, hvalues]
  split
  · simp [retire]
  · exact ⟨rfl, rfl⟩

/-- A message that brings nothing to record leaves record and witness as they are. -/
theorem noted_of_not_recorded (hleader : r.isLeader = false) (h : r.records? m = none) :
    (r.noted m).witness = r.witness ∧ (r.noted m).witnessed = r.witnessed := by
  cases hq : m.request? with
  | none =>
      obtain ⟨_, hframe⟩ := noted_of_request?_eq_none (r := r) hq
      rw [hframe]
      exact ⟨rfl, rfl⟩
  | some q =>
      cases hweak : q.weak with
      | true =>
          have hvariant : r.config.variant ≠ .everyReplica := by
            simpa [records?, hq, hweak] using h
          rw [noted_weak_of_not_isLeader hleader hq hweak, if_neg hvariant]
          exact ⟨rfl, rfl⟩
      | false =>
          have hknown : r.witnessed.contains q.id = true := by
            simpa [records?, hq, hweak] using h
          rw [noted_strong_of_not_isLeader hleader hq hweak, if_pos hknown]
          exact ⟨rfl, rfl⟩

/-- A message that brings something to record makes the replica witness it. -/
theorem noted_of_recorded (hleader : r.isLeader = false) (h : r.records? m = some q) :
    (r.noted m).witness = (r.recordWitness q.id q.command (!q.weak)).1.witness ∧
      (r.noted m).witnessed = (r.recordWitness q.id q.command (!q.weak)).1.witnessed := by
  obtain ⟨hq, hvariant, hnew⟩ := request?_of_records? h
  cases hweak : q.weak with
  | true =>
      rw [noted_weak_of_not_isLeader hleader hq hweak, if_pos (hvariant hweak)]
      obtain ⟨_, hframe⟩ := r.recordPending_frame q.id q.command
      exact recordWitness_congr (by rw [hframe]) (by rw [hframe]) (by rw [hframe]) ..
  | false =>
      have hunknown : ¬r.witnessed.contains q.id = true := hnew hweak
      rw [noted_strong_of_not_isLeader hleader hq hweak, if_neg hunknown]
      exact ⟨rfl, rfl⟩

/-! ### What relates record and witness -/

/-- A relation that the new record and the new witness have survives if the command has executed
already and leaves both at once. -/
theorem Witnesses.relates_recordWitness (hw : r.Witnesses) (hI : Retires I)
    (hnew : id ∉ r.witnessed) {c : Command} {strong : Bool}
    (hrecord : I (r.witnessed.insert id ⟨c, strong⟩) (r.witness.record id c strong).1) :
    I (r.recordWitness id c strong).1.witnessed (r.recordWitness id c strong).1.witness := by
  have hnone : r.witnessed[id]? = none := by simpa using hnew
  have htallies := hw.tallies.record hnone c strong
  unfold Replica.recordWitness
  dsimp only
  split
  · simpa [retire] using hI htallies hrecord (Std.ExtTreeMap.getElem?_insert_self)
  · exact hrecord

theorem Change.relates (hc : Change fits r effects r') (hw : r.Witnesses) (hI : Retires I)
    (h : I r.witnessed r.witness) : I r'.witnessed r'.witness := by
  obtain ⟨_, _, _, rfl⟩ | ⟨slot, s, id, c, hlive, hx, hturn, rfl⟩ := hc.frame_or_executed
  · exact h
  · have hretired : I (r.witnessed.erase id) (r.retire id).witness := by
      rw [← witnessed_retire]
      cases hx : r.witnessed[id]? with
      | none => simpa [Replica.retire, hx] using h
      | some x => simpa [Replica.retire, hx] using hI hw.tallies h hx
    simpa [dropSlot, execute_eq, hw.tallies.isLeader] using hretired

/-- A request that is recorded stays so, or executes. -/
theorem Change.recorded (hc : Change fits r effects r') (h : r.Recorded q) : r'.Recorded q := by
  obtain ⟨_, _, _, rfl⟩ | ⟨slot, s, id, c, hlive, hx, hturn, rfl⟩ := hc.frame_or_executed
  · exact h
  · have hvalues : ((r.execute slot s id c).1.dropSlot slot).values =
        r.values.insert id (r.store.execute c).2 := values_execute ..
    by_cases hid : id = q.id
    · right
      rw [hvalues, hid]
      simp
    · rcases h with hwitnessed | hvalue
      · exact .inl ((witnessed_execute r slot s c hid).trans hwitnessed)
      · right
        rw [hvalues, Std.ExtTreeMap.contains_insert, hvalue, Bool.or_true]

namespace Attends

/-- A relation between record and witness that recording the message's request establishes, or that
holds if there is none to record, holds after the message. -/
theorem relates (h : base.Attends config log issued m log') (hleader : base.isLeader = false)
    (hnew : ∀ q, base.records? m = some q → q.id ∉ base.witnessed) (hw : base.Witnesses)
    (hI : Retires I) (hsame : base.records? m = none → I base.witnessed base.witness)
    (hrecord : ∀ q, base.records? m = some q →
      I (base.witnessed.insert q.id ⟨q.command, !q.weak⟩)
        (base.witness.record q.id q.command (!q.weak)).1) :
    I (base.handle m).1.witnessed (base.handle m).1.witness := by
  have hvalues := (noted_noted base m).values_eq
  have hnoted : (base.noted m).Witnesses ∧ I (base.noted m).witnessed (base.noted m).witness := by
    cases hq : base.records? m with
    | none =>
        obtain ⟨hwitness, hwitnessed⟩ := noted_of_not_recorded hleader hq
        rw [hwitness, hwitnessed]
        exact ⟨hw.congr hwitness hwitnessed hvalues, hsame hq⟩
    | some q =>
        obtain ⟨hwitness, hwitnessed⟩ := noted_of_recorded hleader hq
        have hvalues' : (base.recordWitness q.id q.command (!q.weak)).1.values = base.values := by
          obtain ⟨_, _, hframe⟩ := base.recordWitness_frame q.id q.command (!q.weak)
          rw [hframe]
        rw [hwitness, hwitnessed]
        exact ⟨(hw.recordWitness (hnew q hq) q.command (!q.weak)).congr hwitness hwitnessed
          (hvalues.trans hvalues'.symm),
          hw.relates_recordWitness hI (hnew q hq) (hrecord q hq)⟩
  obtain ⟨-, -, hafter⟩ := h.preserves
    (P := fun r _ => r.Witnesses ∧ I r.witnessed r.witness) hnoted
    fun _ hp hc => ⟨hc.witnesses hp.1, hc.relates hp.1 hI hp.2⟩
  exact hafter.2

/-- What is on record after a message was so before, or is the request that the message brings. -/
theorem getElem?_witnessed (h : base.Attends config log issued m log')
    (hleader : base.isLeader = false) {x : Witnessed}
    (hx : (base.handle m).1.witnessed[id]? = some x) :
    base.witnessed[id]? = some x ∨
      ∃ q, base.records? m = some q ∧ q.id = id ∧ x = ⟨q.command, !q.weak⟩ := by
  have hnoted : ∀ (id : CommandId) x, (base.noted m).witnessed[id]? = some x →
      base.witnessed[id]? = some x ∨
        ∃ q, base.records? m = some q ∧ q.id = id ∧ x = ⟨q.command, !q.weak⟩ := by
    intro id x hx
    cases hq : base.records? m with
    | none =>
        rw [(noted_of_not_recorded hleader hq).2] at hx
        exact .inl hx
    | some q =>
        rw [(noted_of_recorded hleader hq).2] at hx
        have hentry : (base.witnessed.insert q.id ⟨q.command, !q.weak⟩)[id]? = some x := by
          unfold recordWitness at hx
          dsimp only at hx
          split at hx
          · rw [witnessed_retire, Std.ExtTreeMap.getElem?_erase] at hx
            split at hx
            · simp at hx
            · exact hx
          · exact hx
        rw [Std.ExtTreeMap.getElem?_insert] at hentry
        split at hentry
        · rename_i heq
          exact .inr ⟨q, rfl, Std.LawfulEqOrd.eq_of_compare heq, (Option.some.inj hentry).symm⟩
        · exact .inl hentry
  obtain ⟨-, -, hafter⟩ := h.preserves (P := fun r _ => ∀ (id : CommandId) x,
    r.witnessed[id]? = some x → base.witnessed[id]? = some x ∨
      ∃ q, base.records? m = some q ∧ q.id = id ∧ x = ⟨q.command, !q.weak⟩) hnoted
    fun _ hp hc id x hx => hp id x (hc.getElem?_witnessed hx)
  exact hafter id x hx

/-- A request that is recorded stays so, and the one that the message brings for the record is
recorded after it. -/
theorem recorded (h : base.Attends config log issued m log') (hleader : base.isLeader = false)
    (hq : base.Recorded q ∨ base.records? m = some q)
    (hunique : ∀ q', m.request? = some q' → q'.id = q.id → q' = q) :
    (base.handle m).1.Recorded q := by
  have hnoted : (base.noted m).Recorded q := by
    have hvalues := (noted_noted base m).values_eq
    rcases hq with hold | hnew
    · rcases hold with hwitnessed | hvalue
      · rcases (noted_noted base m).2 q.id with hsame | ⟨q', hm, hid, hrecorded⟩
        · exact .inl (hsame.trans hwitnessed)
        · exact hunique q' hm hid ▸ hrecorded
      · exact .inr (hvalues ▸ hvalue)
    · rcases (Noted.recordWitness base q).2 with hwitnessed | hvalue
      · exact .inl ((noted_of_recorded hleader hnew).2 ▸ hwitnessed)
      · rw [(Noted.recordWitness base q).1.values_eq] at hvalue
        exact .inr (hvalues ▸ hvalue)
  obtain ⟨-, -, hafter⟩ := h.preserves (P := fun r _ => r.Recorded q) hnoted
    fun _ hp hc => hc.recorded hp
  exact hafter

end Attends

/-! ### Verdicts -/

/-- A replica plans to give a verdict on a strong command only, and only when it records that. -/
theorem verdict_of_emit {client : ClientId} {a : RecordAck}
    (h : .emit (.tell client (.recordAck a)) ∈ (r.respond m).steps) :
    ∃ q, m.request? = some q ∧ q.weak = false ∧ q.id ∉ r.witnessed ∧ client = q.id.client ∧
      a = ⟨r.id, r.config.ballot, q.id, (r.witness.check q.command true).ok,
        (r.witness.check q.command true).weakDep⟩ := by
  generalize hverdict : Effect.tell client (.recordAck a) = e at h
  cases says_of_emit h with
  | announces body a => simp at hverdict
  | answers body reply => simp at hverdict
  | judges body hleader hnew =>
      obtain ⟨rfl, hack⟩ := Effect.tell.inj hverdict
      refine ⟨⟨body.id, body.command, false⟩, rfl, rfl, hnew, rfl, ?_⟩
      rw [ClientMessage.recordAck.inj hack, ← r.witness.verdict_record body.id]
      rfl
  | gives body value => simp [syncReply] at hverdict
  | replies body hvariant => simp [weakReply] at hverdict
  | repliesCausally body hvariant => simp [weakReply] at hverdict

/-- The only verdict that a change sends is that a command is ordered. -/
theorem Change.ordered_of_tell (hc : Change fits r effects r') {client : ClientId} {a : RecordAck}
    (h : .tell client (.recordAck a) ∈ effects) : a.ok = .ordered := by
  cases hc with
  | opened hlive hexec => simp at h
  | took hlive happlied hstale hfit =>
      rcases effects_apply h with heq | ⟨_, heq⟩ | ⟨_, -, ⟨_, heq⟩ | ⟨_, heq⟩⟩
      · simp at heq
      · simp at heq
      · simp at heq
      · obtain ⟨-, heq⟩ := Effect.tell.inj heq
        obtain rfl := ClientMessage.recordAck.inj heq
        rfl
  | awaited hlive hexec => simp at h
  | executed hlive hx hturn =>
      rcases effects_execute h with heq | heq | hanswer
      · simp at heq
      · simp at heq
      · obtain ⟨-, heq | ⟨causal, heq⟩⟩ := mem_answers hanswer
        · simp [syncReply] at heq
        · cases causal <;> simp [weakReply] at heq

/-- A verdict other than that a command is ordered is on a strong command that is not on record, and
is what the witness says of it. -/
theorem Attends.verdict (h : base.Attends config log issued m log') {client : ClientId}
    {a : RecordAck} (htell : .tell client (.recordAck a) ∈ (base.handle m).2) (hok : a.ok ≠ .ordered) :
    ∃ q, m.request? = some q ∧ q.weak = false ∧ q.id ∉ base.witnessed ∧ client = q.id.client ∧
      a = ⟨base.id, base.config.ballot, q.id, (base.witness.check q.command true).ok,
        (base.witness.check q.command true).weakDep⟩ := by
  obtain ⟨effects, hsplits, hordered⟩ := h.preserves
    (P := fun _ sent => ∀ client a, .tell client (.recordAck a) ∈ sent → a.ok = .ordered)
    (by simp) fun _ hp hc client a hmem =>
      (List.mem_append.1 hmem).elim (hp client a) hc.ordered_of_tell
  rcases hsplits.complete _ htell with hmem | hmem | ⟨body, heq⟩
  · exact absurd (hordered client a hmem) hok
  · exact verdict_of_emit hmem
  · simp at heq

end WitnessReplication.Replica
