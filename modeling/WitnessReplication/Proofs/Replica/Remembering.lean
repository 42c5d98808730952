import WitnessReplication.Proofs.Replica.Noting

/-!
# What a replica remembers of a client's writes

A replica keeps a client's latest write to a key until a write of that client, to the same key and
no earlier, has executed. A write is covered (`Replica.Covers`) as long as one that is no earlier
is kept, or has executed: once remembered, a write is covered from then on.

What is kept is an arrived request, and an executed write leaves the record at the same moment
(`Attends.unexecuted_of_pending`), so that only a request that arrives after its execution can be
kept although it has executed.
-/

namespace WitnessReplication.Replica

/-- A write of a client is kept in the record, or a write of that client to the key, no earlier
than `q`, has executed. -/
def Covers (log : Log) (r : Replica) (q : Request) : Prop :=
  (∃ write, r.pendingWrites[ClientKey.mk q.id.client q.command.key]? = some write ∧
    q.id.seq ≤ write.seq) ∨
  ∃ slot q', log.request? slot = some q' ∧ slot < r.executed ∧ q'.id.client = q.id.client ∧
    q'.command.key = q.command.key ∧ q'.command.isWrite = true ∧ q.id.seq ≤ q'.id.seq

/-- A replica has a result of every request whose slot it has executed. -/
def HasResults (log : Log) (r : Replica) : Prop :=
  ∀ slot q, log.request? slot = some q → slot < r.executed → r.values.contains q.id = true

variable {log log' : Log} {config : Config} {leads : Bool} {issued : List Request}
variable {base r r' : Replica} {m : ReplicaMessage} {q q' : Request} {effects : List Effect}
variable {id : CommandId} {c : Command} {key : ClientKey} {write : PendingWrite}
variable {fits : Slot → Event → Prop}

/-! ### Recording and clearing -/

/-- Of two writes of a client to a key, the later one is kept. -/
theorem pendingWrites_recordPending_eq (r : Replica) (id : CommandId) (c : Command)
    (key : ClientKey) :
    (r.recordPending id c).pendingWrites[key]? =
      if c.isWrite = true ∧ key = ⟨id.client, c.key⟩ ∧
          (∀ write, r.pendingWrites[key]? = some write → write.seq ≤ id.seq) then
        some ⟨id.seq, c.value⟩
      else r.pendingWrites[key]? := by
  unfold recordPending
  dsimp only
  by_cases hkey : key = ⟨id.client, c.key⟩
  · subst hkey
    cases hwrite : c.isWrite with
    | false => simp
    | true =>
        cases hold : r.pendingWrites[ClientKey.mk id.client c.key]? with
        | none => simp
        | some write =>
            by_cases hlt : id.seq < write.seq
            · simp [hlt, Nat.not_le.2 hlt, hold]
            · simp [hlt, Nat.le_of_not_lt hlt]
  · rw [if_neg (fun h => hkey h.2.1 : ¬(c.isWrite = true ∧ key = ⟨id.client, c.key⟩ ∧ _))]
    split
    · rfl
    · rw [Std.ExtTreeMap.getElem?_insert, if_neg (by simpa using Ne.symm hkey)]

theorem Covers.mono (h : r.Covers log q) (hlog : log <+: log') : r.Covers log' q := by
  rcases h with hkept | ⟨slot, q', hq', hrest⟩
  · exact .inl hkept
  · exact .inr ⟨slot, q', Log.request?_mono hlog hq', hrest⟩

theorem Covers.congr (h : r.Covers log q) (hpending : r'.pendingWrites = r.pendingWrites)
    (hexec : r'.executed = r.executed) : r'.Covers log q := by
  unfold Covers
  rw [hpending, hexec]
  exact h

theorem executed_recordPending (r : Replica) (id : CommandId) (c : Command) :
    (r.recordPending id c).executed = r.executed := by
  obtain ⟨_, h⟩ := r.recordPending_frame id c
  rw [h]

/-- Remembering a further write leaves the others covered. -/
theorem Covers.recordPending (h : r.Covers log q) (id : CommandId) (c : Command) :
    (r.recordPending id c).Covers log q := by
  rcases h with ⟨write, hwrite, hle⟩ | hexecuted
  · left
    rw [pendingWrites_recordPending_eq]
    split
    · rename_i hnew
      exact ⟨_, rfl, Nat.le_trans hle (hnew.2.2 write hwrite)⟩
    · exact ⟨write, hwrite, hle⟩
  · right
    rw [executed_recordPending]
    exact hexecuted

/-- A write that is remembered is covered. -/
theorem covers_recordPending (r : Replica) (hwrite : q.command.isWrite = true) :
    (r.recordPending q.id q.command).Covers log q := by
  left
  rw [pendingWrites_recordPending_eq]
  split
  · exact ⟨_, rfl, Nat.le_refl _⟩
  · rename_i hold
    cases hkept : r.pendingWrites[ClientKey.mk q.id.client q.command.key]? with
    | none => exact absurd ⟨hwrite, rfl, by simp [hkept]⟩ hold
    | some write =>
        refine ⟨write, rfl, Nat.le_of_not_le fun hle => hold ⟨hwrite, rfl, ?_⟩⟩
        rintro write' hwrite'
        rw [hkept] at hwrite'
        exact Option.some.inj hwrite' ▸ hle

theorem HasResults.mono (h : r.HasResults log) (hr : r.Follows log) (hlog : log <+: log') :
    r.HasResults log' := by
  intro slot q hq hexec
  obtain ⟨more, rfl⟩ := hlog
  rw [Log.request?_append_left _ (Nat.lt_of_lt_of_le hexec hr.executed_le)] at hq
  exact h slot q hq hexec

/-! ### What every change keeps -/

theorem pendingWrites_execute (r : Replica) (slot : Slot) (s : LiveSlot) (id : CommandId)
    (c : Command) :
    ((r.execute slot s id c).1.dropSlot slot).pendingWrites =
      (r.clearPending id c).pendingWrites := by
  obtain ⟨_, _, _, _, _, -, h⟩ := r.execute_frame id c slot s
  rw [h]
  rfl

theorem values_execute (r : Replica) (slot : Slot) (s : LiveSlot) (id : CommandId) (c : Command) :
    ((r.execute slot s id c).1.dropSlot slot).values =
      r.values.insert id (r.store.execute c).2 := by
  obtain ⟨_, _, _, _, _, -, h⟩ := r.execute_frame id c slot s
  rw [h]
  rfl

/-- Forgetting takes the write of a key out of the record, or leaves the record of the key. -/
theorem of_pendingWrites_clearPending
    (h : (r.clearPending id c).pendingWrites[key]? = some write) :
    r.pendingWrites[key]? = some write ∧
      ¬(c.isWrite = true ∧ key = ⟨id.client, c.key⟩ ∧ write.seq ≤ id.seq) := by
  rw [pendingWrites_clearPending] at h
  split at h
  · rw [Std.ExtTreeMap.getElem?_erase] at h
    split at h
    · simp at h
    · rename_i hne
      refine ⟨h, fun hcleared => hne ?_⟩
      rw [hcleared.2.1]
      exact Std.compare_eq_iff_eq.2 rfl
  · rename_i hkept
    refine ⟨h, ?_⟩
    rintro ⟨hwrite, rfl, hle⟩
    simp [hwrite, h, hle] at hkept

/-- A write that is forgotten when a slot executes is no later than that slot's. -/
theorem pendingWrites_clearPending_of_some (hwrite : r.pendingWrites[key]? = some write) :
    (r.clearPending id c).pendingWrites[key]? = some write ∨
      (c.isWrite = true ∧ key = ⟨id.client, c.key⟩ ∧ write.seq ≤ id.seq) := by
  rw [pendingWrites_clearPending]
  split
  · rename_i hclear
    by_cases hkey : key = ⟨id.client, c.key⟩
    · right
      subst hkey
      simpa [hwrite] using hclear
    · left
      rw [Std.ExtTreeMap.getElem?_erase, if_neg (by simpa using Ne.symm hkey), hwrite]
  · exact .inl hwrite

/-- A change forgets writes and remembers none. -/
theorem Change.pendingWrites_of (hc : Change fits r effects r')
    (h : r'.pendingWrites[key]? = some write) : r.pendingWrites[key]? = some write := by
  obtain ⟨_, _, _, rfl⟩ | ⟨slot, s, id, c, -, -, -, rfl⟩ := hc.frame_or_executed
  · exact h
  · rw [pendingWrites_execute] at h
    exact (of_pendingWrites_clearPending h).1

/-- What is covered stays so through every change. -/
theorem Change.covers (hs : Serving config leads log base r [])
    (hc : Change fits r effects r') (h : r.Covers log q) : r'.Covers log q := by
  obtain ⟨_, _, _, rfl⟩ | ⟨slot, s, id, c, hlive, hx, hturn, rfl⟩ := hc.frame_or_executed
  · exact h
  · have hslot := hs.follows.eq_executed hlive hturn
    obtain ⟨-, -, hid, hcommand⟩ := LiveSlot.executable?_eq_some hx
    have hq := hs.follows.live_fits hlive id c hid hcommand
    rw [Covers, pendingWrites_execute, executed_execute]
    rcases h with ⟨write, hwrite, hle⟩ | ⟨other, q', hq', hexec, hrest⟩
    · rcases pendingWrites_clearPending_of_some hwrite with hkept | ⟨hput, hkey, hclear⟩
      · exact .inl ⟨write, hkept, hle⟩
      · -- the slot that executes holds a write that is no earlier
        obtain ⟨hclient, hkey⟩ := ClientKey.mk.inj hkey
        exact .inr ⟨slot, _, hq, Nat.lt_succ_self slot, hclient.symm, hkey.symm, hput,
          Nat.le_trans hle hclear⟩
    · exact .inr ⟨other, q', hq', Nat.lt_succ_of_lt (hslot ▸ hexec), hrest⟩

/-- A change that executes a request forgets its write. -/
theorem Change.unexecuted_of_pending (hs : Serving config leads log base r [])
    (hunique : ∀ slot q', log.request? slot = some q' → q'.id = q.id → q' = q)
    (hc : Change fits r effects r') (h : r'.pendingWrites[key]? = some write)
    (hid : q.id = ⟨key.client, write.seq⟩) (hwrites : q.command.Writes key.key write.value)
    (hold : r.values.contains q.id = false) : r'.values.contains q.id = false := by
  obtain ⟨_, _, _, rfl⟩ | ⟨slot, s, id, c, hlive, hx, hturn, rfl⟩ := hc.frame_or_executed
  · exact hold
  · rw [pendingWrites_execute] at h
    rw [values_execute, Std.ExtTreeMap.contains_insert, hold, Bool.or_false]
    refine Bool.eq_false_iff.2 fun heq => ?_
    obtain rfl : id = q.id := Std.LawfulEqOrd.eq_of_compare (beq_iff_eq.1 heq)
    obtain ⟨-, -, hsid, hcommand⟩ := LiveSlot.executable?_eq_some hx
    have hslot := hs.follows.live_fits hlive q.id c hsid hcommand
    have hsame := hunique slot _ hslot rfl
    obtain rfl : c = q.command := congrArg Request.command hsame
    refine (of_pendingWrites_clearPending h).2 ⟨?_, ?_, ?_⟩
    · rw [hwrites]
      rfl
    · rw [hid, hwrites]
    · exact Nat.le_of_eq (congrArg CommandId.seq hid).symm

/-- A replica keeps the results that it has. -/
theorem Change.contains_values (hc : Change fits r effects r') (h : r.values.contains id = true) :
    r'.values.contains id = true := by
  obtain ⟨_, _, _, rfl⟩ | ⟨slot, s, id', c, -, -, -, rfl⟩ := hc.frame_or_executed
  · exact h
  · rw [values_execute, Std.ExtTreeMap.contains_insert, h, Bool.or_true]

/-- Executing a slot yields a result. -/
theorem Change.hasResults (hs : Serving config leads log base r [])
    (hc : Change fits r effects r') (h : r.HasResults log) : r'.HasResults log := by
  intro slot q hq hexec
  have hkept : slot < r.executed → r'.values.contains q.id = true := fun hlt =>
    hc.contains_values (h slot q hq hlt)
  obtain ⟨_, _, _, rfl⟩ | ⟨other, s, id, c, hlive, hx, hturn, rfl⟩ := hc.frame_or_executed
  · exact hkept hexec
  · have hother := hs.follows.eq_executed hlive hturn
    rw [executed_execute] at hexec
    rcases Nat.lt_succ_iff_lt_or_eq.1 hexec with hlt | rfl
    · exact hkept (hother ▸ hlt)
    · obtain ⟨-, -, hid, hcommand⟩ := LiveSlot.executable?_eq_some hx
      have hslot := hs.follows.live_fits hlive id c hid hcommand
      obtain rfl := Option.some.inj (hq.symm.trans hslot)
      rw [values_execute, Std.ExtTreeMap.contains_insert]
      simp

/-! ### What handling a message keeps -/

theorem executed_noted (r : Replica) (m : ReplicaMessage) :
    (r.noted m).executed = r.executed := by
  obtain ⟨⟨_, _, _, _, _, _, h⟩, -⟩ := noted_noted r m
  rw [h]

theorem values_noted (r : Replica) (m : ReplicaMessage) : (r.noted m).values = r.values := by
  obtain ⟨⟨_, _, _, _, _, _, h⟩, -⟩ := noted_noted r m
  rw [h]

namespace Attends

/-- What is covered stays so whatever message the replica handles. -/
theorem covers (h : base.Attends config log issued m log') (hq : base.Covers log q) :
    (base.handle m).1.Covers log' q := by
  have hnoted : (base.noted m).Covers log' q := by
    have hq := hq.mono h.prefix_log
    have hexec := executed_noted base m
    cases hrequest : m.request? with
    | none => exact hq.congr (pendingWrites_noted_of_none hrequest) hexec
    | some q' =>
        have hpending := h.pendingWrites_noted hrequest
        split at hpending
        · refine (hq.recordPending q'.id q'.command).congr hpending ?_
          rw [hexec, executed_recordPending]
        · exact hq.congr hpending hexec
  obtain ⟨-, -, hcovers⟩ := h.preserves (P := fun r _ => r.Covers log' q) hnoted
    fun hs hp hc => hc.covers hs hp
  exact hcovers

/-- A write that the replica remembers when it arrives is covered. -/
theorem covers_new (h : base.Attends config log issued m log') (hm : m.request? = some q)
    (hremembers : base.remembers q = true) (hwrite : q.command.isWrite = true) :
    (base.handle m).1.Covers log' q := by
  have hnoted : (base.noted m).Covers log' q := by
    have hpending := h.pendingWrites_noted hm
    rw [if_pos hremembers] at hpending
    refine (covers_recordPending base hwrite).congr hpending ?_
    rw [executed_noted, executed_recordPending]
  obtain ⟨-, -, hcovers⟩ := h.preserves (P := fun r _ => r.Covers log' q) hnoted
    fun hs hp hc => hc.covers hs hp
  exact hcovers

/-- A write that is in the record after a message was there when that was noted. -/
theorem pendingWrites_noted_of (h : base.Attends config log issued m log')
    (hwrite : (base.handle m).1.pendingWrites[key]? = some write) :
    (base.noted m).pendingWrites[key]? = some write := by
  obtain ⟨-, -, hnoted⟩ := h.preserves
    (P := fun r _ => r.pendingWrites[key]? = some write →
      (base.noted m).pendingWrites[key]? = some write)
    (fun hw => hw) fun _ hp hc hw => hp (hc.pendingWrites_of hw)
  exact hnoted hwrite

/-- A write in the record was there before, or it has just arrived. -/
theorem pendingWrites_of (h : base.Attends config log issued m log')
    (hwrite : (base.handle m).1.pendingWrites[key]? = some write) :
    base.pendingWrites[key]? = some write ∨ ∃ q, m.request? = some q ∧ base.remembers q = true ∧
      q.command.isWrite = true ∧ key = ⟨q.id.client, q.command.key⟩ ∧
      write = ⟨q.id.seq, q.command.value⟩ := by
  have hnoted := h.pendingWrites_noted_of hwrite
  cases hrequest : m.request? with
  | none =>
      rw [pendingWrites_noted_of_none hrequest] at hnoted
      exact .inl hnoted
  | some q =>
      rw [h.pendingWrites_noted hrequest] at hnoted
      split at hnoted
      · rename_i hremembers
        rw [pendingWrites_recordPending_eq] at hnoted
        split at hnoted
        · rename_i hnew
          exact .inr ⟨q, rfl, hremembers, hnew.1, hnew.2.1, (Option.some.inj hnoted).symm⟩
        · exact .inl hnoted
      · exact .inl hnoted

/-- When a write has arrived, an earlier one of the client to the key is not kept. -/
theorem seq_le_of_new (h : base.Attends config log issued m log') (hm : m.request? = some q)
    (hremembers : base.remembers q = true) (hput : q.command.isWrite = true)
    (hwrite : (base.handle m).1.pendingWrites[ClientKey.mk q.id.client q.command.key]? =
      some write) : q.id.seq ≤ write.seq := by
  have hnoted := h.pendingWrites_noted_of hwrite
  rw [h.pendingWrites_noted hm, if_pos hremembers, pendingWrites_recordPending_eq] at hnoted
  split at hnoted
  · obtain rfl := Option.some.inj hnoted
    exact Nat.le_refl _
  · rename_i hlater
    refine Nat.le_of_not_le fun hle => hlater ⟨hput, rfl, fun write' hkept => ?_⟩
    exact Option.some.inj (hnoted.symm.trans hkept) ▸ hle

/-- A write that is in the record after a message has not executed, if it had not before. -/
theorem unexecuted_of_pending (h : base.Attends config log issued m log')
    (hunique : ∀ slot q', log'.request? slot = some q' → q'.id = q.id → q' = q)
    (hwrite : (base.handle m).1.pendingWrites[key]? = some write)
    (hid : q.id = ⟨key.client, write.seq⟩) (hwrites : q.command.Writes key.key write.value)
    (hold : base.values.contains q.id = false) :
    (base.handle m).1.values.contains q.id = false := by
  obtain ⟨-, -, hkept⟩ := h.preserves
    (P := fun r _ => r.pendingWrites[key]? = some write → r.values.contains q.id = false)
    (fun _ => (values_noted base m).symm ▸ hold)
    fun hs hp hc hw => hc.unexecuted_of_pending hs hunique hw hid hwrites
      (hp (hc.pendingWrites_of hw))
  exact hkept hwrite

/-- The replica keeps the results that it has. -/
theorem contains_values (h : base.Attends config log issued m log')
    (hvalue : base.values.contains id = true) :
    (base.handle m).1.values.contains id = true := by
  obtain ⟨-, -, hkept⟩ := h.preserves (P := fun r _ => r.values.contains id = true)
    ((values_noted base m).symm ▸ hvalue) fun _ hp hc => hc.contains_values hp
  exact hkept

/-- The replica has a result of every request whose slot it has executed. -/
theorem hasResults (h : base.Attends config log issued m log') (hold : base.HasResults log) :
    (base.handle m).1.HasResults log' := by
  have hnoted : (base.noted m).HasResults log' := by
    intro slot q hq hexec
    rw [executed_noted] at hexec
    rw [values_noted]
    exact hold.mono h.follows h.prefix_log slot q hq hexec
  obtain ⟨-, -, hresults⟩ := h.preserves (P := fun r _ => r.HasResults log') hnoted
    fun hs hp hc => hc.hasResults hs hp
  exact hresults

end Attends

end WitnessReplication.Replica
