import WitnessReplication.Proofs.Replica.Saying
import WitnessReplication.Proofs.Replica.Waiting

/-!
# Sending committed results

A client is told the committed result of a strong command when it asks and the command has executed,
and when the command executes and somebody waits for it or the leader refused it at first. That the
leader refused it is marked in the record of the slot (`LiveSlot.MarksRefused`), where it is read
when the slot executes.

What becomes of one command while a replica handles a message is put together from the changes of
the slots (`Replica.Settles`). Only the one that executes the command sends its result.
-/

namespace WitnessReplication

/-- The leader refused a command when it gave that a slot. -/
def Log.refuses (log : Log) (id : CommandId) : Bool :=
  log.any fun a => decide (a.id = id ∧ a.leader.verdict a.command.key = .refused)

section Refusing

variable {log log' : Log} {issued : List Request} {id : CommandId} {value : Value} {ok : Ack}
variable {slot : Slot} {q : Request}

/-- Whatever the leader has answered to a strong command tells whether it was refused. -/
theorem Log.Records.refuses_eq (h : log.Records issued) (hanswers : log.Answers id value ok) :
    log.refuses id = decide (ok = .refused) := by
  obtain ⟨slot, a, ha, rfl, hstrong, -, rfl⟩ := hanswers
  rw [Bool.eq_iff_iff, refuses, List.any_eq_true, decide_eq_true_iff]
  constructor
  · rintro ⟨a', hmem, hrefused⟩
    obtain ⟨hid, hrefused⟩ := of_decide_eq_true hrefused
    obtain ⟨slot', ha'⟩ := List.mem_iff_getElem?.1 hmem
    obtain rfl :=
      h.slot_unique (request?_of_getElem? ha) (request?_of_getElem? ha') hid.symm hstrong
    obtain rfl := Option.some.inj (ha.symm.trans ha')
    exact hrefused
  · exact fun hrefused => ⟨a, List.mem_of_getElem? ha, decide_eq_true ⟨rfl, hrefused⟩⟩

/-- Once a strong command has a slot, it is settled whether it was refused. -/
theorem Log.Records.refuses_mono (h : log.Records issued) (h' : log'.Records issued)
    (hlog : log <+: log') (hq : log.request? slot = some q) (hstrong : q.weak = false) :
    log'.refuses q.id = log.refuses q.id := by
  obtain ⟨a, ha, rfl⟩ := request?_eq_some hq
  have hanswers : log.Answers a.id _ _ := ⟨slot, a, ha, rfl, hstrong, rfl, rfl⟩
  rw [h.refuses_eq hanswers, h'.refuses_eq (hanswers.mono hlog)]

end Refusing

namespace Replica

/-- Whether an effect tells a client the committed result of a command. -/
def Effect.isSyncReply (id : CommandId) : Effect → Bool
  | .tell _ (.syncReply m) => decide (m.id = id)
  | _ => false

/-- The slot of a strong command is to send the result unasked if the command was refused. -/
def LiveSlot.MarksRefused (log : Log) (s : LiveSlot) : Prop :=
  ∀ id c, s.id = some id → s.command = some c → s.weak = false → s.sync = log.refuses id

/-- All slots under way of strong commands that were refused, and no others, are to send the result
unasked. -/
def MarksRefused (log : Log) (r : Replica) : Prop :=
  ∀ (slot : Slot) (s : LiveSlot), r.live[slot]? = some s → s.MarksRefused log

/-- The committed result of a command that is due when a replica that was `base` has become `r`: it
is if the command has executed in between, and somebody waited for it or it was refused. -/
def due (refused : Bool) (id : CommandId) (base r : Replica) : List Effect :=
  match base.value? id, r.value? id with
  | none, some value =>
    if base.syncWaiters.contains id || refused then [base.syncReply id value] else []
  | _, _ => []

/-- A replica that was `base` has sent the result of a command if that was due. Whoever waited for
it still does as long as there is no result, and a result stays as it is. -/
structure Settles (refused : Bool) (id : CommandId) (base r : Replica) (sent : List Effect) :
    Prop where
  sent_eq : sent.filter (Effect.isSyncReply id) = due refused id base r
  waiting_iff : id ∈ r.syncWaiters ↔ id ∈ base.syncWaiters ∧ r.value? id = none
  kept : ∀ value, base.value? id = some value → r.value? id = some value

variable {log log' : Log} {config : Config} {leads : Bool} {issued : List Request}
variable {base r r' : Replica} {m : ReplicaMessage} {effects sent : List Effect}
variable {id : CommandId} {slot : Slot} {s : LiveSlot} {event : Event} {c : Command}
variable {fits : Slot → Event → Prop}

/-! ### Marks of refusal -/

theorem marksRefused_initial (id : ReplicaId) (config : Config) :
    (initial id config).MarksRefused log := by
  intro slot s hs
  simp [initial] at hs

/-- Only a proposal marks a slot, at a replica that is handed no accept. -/
theorem LiveSlot.MarksRefused.apply (h : s.MarksRefused log) (r : Replica) (slot : Slot)
    (haccept : ∀ a, event ≠ .accept a)
    (hproposed : ∀ p, event = .propose p → p.weak = false → p.sync = log.refuses p.id) :
    (r.apply slot s event).2.1.MarksRefused log := by
  obtain ⟨_, _, hrecord⟩ := r.record_apply slot s event
  rw [hrecord]
  cases event with
  | propose p =>
      rintro id c hid - hstrong
      obtain rfl := Option.some.inj hid
      exact hproposed p rfl hstrong
  | accept a => exact absurd rfl (haccept a)
  | _ => exact h

theorem Change.marksRefused (h : r.MarksRefused log) (haccept : ∀ slot a, ¬fits slot (.accept a))
    (hproposed : ∀ slot p, fits slot (.propose p) → p.weak = false → p.sync = log.refuses p.id)
    (hc : Change fits r effects r') : r'.MarksRefused log := by
  refine hc.forall_live (K := fun _ s => s.MarksRefused log) (fun _ id c hid => by simp at hid) ?_
    (fun hmarks => hmarks) h
  intro slot s event hfit hmarks
  refine hmarks.apply r slot ?_ ?_
  · rintro a rfl
    exact haccept slot a hfit
  · rintro p rfl
    exact hproposed slot p hfit

/-! ### Executing -/

/-- Whoever waits for a result waits for one that there is not. -/
theorem Waiting.value?_eq_none (h : r.Waiting issued) (hid : id ∈ r.syncWaiters) :
    r.value? id = none := by
  have hnone := (h id hid).2.1
  rw [Std.ExtTreeMap.contains_eq_isSome_getElem?] at hnone
  exact Option.not_isSome_iff_eq_none.1 (Bool.eq_false_iff.1 hnone)

theorem value?_execute (r : Replica) (slot : Slot) (s : LiveSlot) (id' id : CommandId)
    (c : Command) : ((r.execute slot s id' c).1.dropSlot slot).value? id =
      if id' = id then some (r.store.execute c).2 else r.value? id := by
  rw [value?, values_execute, Std.ExtTreeMap.getElem?_insert]
  simp [value?]

/-- A command that executes sends its own result at most. -/
theorem filter_execute (r : Replica) (slot : Slot) (s : LiveSlot) (id' id : CommandId)
    (c : Command) : (r.execute slot s id' c).2.filter (Effect.isSyncReply id) =
      if (r.isLeader && !s.weak && (s.sync || r.syncWaiters.contains id')) = true ∧ id' = id then
        [r.syncReply id' (r.store.execute c).2] else [] := by
  have hreported : (Effect.executed slot ::
      if s.weak then [.weakExecuted id'.client] else []).filter (Effect.isSyncReply id) = [] := by
    cases s.weak <;> rfl
  have hafter : (r.execute slot s id' c).1.isLeader = r.isLeader ∧
      (r.execute slot s id' c).1.id = r.id := by
    obtain ⟨_, _, _, _, _, -, hframe⟩ := r.execute_frame id' c slot s
    rw [hframe]
    exact ⟨rfl, rfl⟩
  rw [effects_execute_eq, List.filter_append, hreported, List.nil_append]
  generalize (r.execute slot s id' c).1 = after at hafter
  rw [answers, hafter.1]
  cases r.isLeader with
  | false => simp
  | true =>
      cases s.weak with
      | true => cases s.reply <;> cases s.causal <;> simp [weakReply, Effect.isSyncReply]
      | false =>
          cases s.sync || r.syncWaiters.contains id' with
          | false => simp
          | true => by_cases hid : id' = id <;> simp [syncReply, hafter.2, Effect.isSyncReply, hid]

/-- A strong command that is about to execute has no result yet, and its slot tells whether it was
refused. -/
theorem Follows.executing (h : r.Follows log) (hrecords : log.Records issued)
    (hlive : r.live[slot]? = some s) (hx : s.executable? = some (id, c))
    (hstrong : ∀ q ∈ issued, q.id = id → q.weak = false) :
    r.value? id = none ∧ s.weak = false := by
  obtain ⟨-, -, hid, hc⟩ := LiveSlot.executable?_eq_some hx
  have hslot := h.live_fits hlive id c hid hc
  have hsweak : s.weak = false := hstrong _ (hrecords.request_issued hslot) rfl
  refine ⟨?_, hsweak⟩
  rw [Option.eq_none_iff_forall_ne_some]
  intro value hvalue
  obtain ⟨other, q, hq, hsame, hlt, -⟩ := h.values_result hvalue
  obtain rfl := hrecords.slot_unique hslot hq hsame.symm hsweak
  exact Nat.not_lt.2 (h.executed_le_live hlive) hlt

/-- A change at the leader leaves a strong command as it was, or executes it. In the latter case it
sends the result if somebody waits for it or the command was refused. -/
theorem Change.syncs (hs : Serving config true log base r []) (hrecords : log.Records issued)
    (hmarks : r.MarksRefused log) (hstrong : ∀ q ∈ issued, q.id = id → q.weak = false)
    (hc : Change fits r effects r') :
    (r'.value? id = r.value? id ∧ (id ∈ r'.syncWaiters ↔ id ∈ r.syncWaiters) ∧
      effects.filter (Effect.isSyncReply id) = []) ∨
    ∃ value, r.value? id = none ∧ r'.value? id = some value ∧ id ∉ r'.syncWaiters ∧
      effects.filter (Effect.isSyncReply id) =
        if r.syncWaiters.contains id || log.refuses id then [r.syncReply id value] else [] := by
  cases hc with
  | opened hlive hexec => exact .inl ⟨rfl, .rfl, rfl⟩
  | @took slot s event hlive happlied hstale hfit =>
      left
      obtain ⟨_, _, hframe⟩ := r.apply_frame slot s event
      refine ⟨by rw [hframe]; rfl, by rw [hframe]; rfl, List.filter_eq_nil_iff.2 fun e he => ?_⟩
      rcases effects_apply he with rfl | ⟨_, rfl⟩ | ⟨_, _, ⟨_, rfl⟩ | ⟨_, rfl⟩⟩ <;>
        simp [Effect.isSyncReply, orderedAck]
  | awaited hlive hexec => exact .inl ⟨rfl, .rfl, rfl⟩
  | @executed slot s id' c hlive hx hturn =>
      have hleader : r.isLeader = true := hs.leads_eq
      have hwaiters : ((r.execute slot s id' c).1.dropSlot slot).syncWaiters = _ :=
        syncWaiters_execute r slot s id' c
      rw [value?_execute, hwaiters, filter_execute, hleader]
      by_cases hid : id' = id
      · subst hid
        obtain ⟨hnone, hsweak⟩ := hs.follows.executing hrecords hlive hx hstrong
        obtain ⟨-, -, hsid, hsc⟩ := LiveSlot.executable?_eq_some hx
        have hmark := hmarks slot s hlive id' c hsid hsc hsweak
        refine .inr ⟨_, hnone, if_pos rfl, ?_, ?_⟩
        · simp [hsweak]
        · simp [hsweak, hmark, Bool.or_comm]
      · refine .inl ⟨if_neg hid, ?_, if_neg fun h => hid h.2⟩
        split
        · simp [Std.ExtTreeSet.mem_erase, hid]
        · rfl

theorem Settles.change (h : Settles (log.refuses id) id base r sent)
    (hs : Serving config true log base r []) (hrecords : log.Records issued)
    (hmarks : r.MarksRefused log) (hstrong : ∀ q ∈ issued, q.id = id → q.weak = false)
    (hc : Change fits r effects r') : Settles (log.refuses id) id base r' (sent ++ effects) := by
  rcases hc.syncs hs hrecords hmarks hstrong with
    ⟨hvalue, hwaiters, hsilent⟩ | ⟨value, hnone, hvalue, hwaiters, hsent⟩
  · refine ⟨?_, by rw [hwaiters, hvalue, h.waiting_iff], by rw [hvalue]; exact h.kept⟩
    rw [List.filter_append, hsilent, List.append_nil, h.sent_eq, due, due, hvalue]
  · have hbase : base.value? id = none := by
      rw [Option.eq_none_iff_forall_ne_some]
      intro value hold
      simp [h.kept value hold] at hnone
    have hsame : r.syncWaiters.contains id = base.syncWaiters.contains id := by
      rw [Bool.eq_iff_iff, Std.ExtTreeSet.contains_iff_mem, Std.ExtTreeSet.contains_iff_mem,
        h.waiting_iff, and_iff_left hnone]
    have hbefore : sent.filter (Effect.isSyncReply id) = [] := by
      rw [h.sent_eq, due, hbase, hnone]
    refine ⟨?_, by simp [hwaiters, hvalue], by simp [hbase]⟩
    rw [List.filter_append, hbefore, List.nil_append, hsent, due, hbase, hvalue, hsame, syncReply,
      hs.id_eq]
    rfl

/-! ### What is said at once -/

/-- The leader has the result that a client asks for, or notes that the client waits. -/
theorem handle_sync (r : Replica) (body : Sync) : r.handle (.sync body) =
    if r.isLeader then
      match r.value? body.id with
      | some value => (r, [r.syncReply body.id value])
      | none => ({ r with syncWaiters := r.syncWaiters.insert body.id }, [])
    else (r, []) := by
  simp only [handle, respond, respondSync, value?]
  cases r.isLeader with
  | false => rfl
  | true => cases r.values[body.id]? <;> rfl

/-- Nobody is told a committed result at once who does not ask for it. -/
theorem said_isSyncReply {e : Effect} (hsync : ∀ body, m ≠ .sync body)
    (h : .emit e ∈ (r.respond m).steps) : e.isSyncReply id = false := by
  cases says_of_emit h with
  | announces body a => rfl
  | answers body reply => rfl
  | judges body hleader hnew => rfl
  | gives body value => exact absurd rfl (hsync body)
  | replies body hvariant => rfl
  | repliesCausally body hvariant => rfl

/-! ### Handling a message -/

namespace Attends

/-- The refusal of a strong command that is proposed is marked in its slot. -/
theorem sync_of_planned (h : base.Attends config log issued m log')
    (hrecords : log'.Records issued) {p : Proposal}
    (hplanned : (Event.propose p).Planned base m slot) (hstrong : p.weak = false) :
    p.sync = log'.refuses p.id := by
  obtain ⟨reply, hsaid, hid, hsync⟩ := hplanned.2.2.2 hstrong
  have hanswers : log'.Answers reply.id reply.value reply.ok :=
    (h.serving.backed _ (mem_handle hsaid) _ fun _ => Nat.le_refl _).2
  rw [hsync, ← hid, hrecords.refuses_eq hanswers]

/-- The leader's slots go on marking what was refused while the log grows. -/
theorem marksRefused_noted (h : base.Attends config log issued m log')
    (hrecords : log.Records issued) (hrecords' : log'.Records issued)
    (hmarks : base.MarksRefused log) : (base.noted m).MarksRefused log' := by
  obtain ⟨⟨_, _, _, _, _, _, hframe⟩, -⟩ := noted_noted base m
  intro slot s hs id c hid hc hstrong
  rw [hframe] at hs
  have hq := h.follows.live_fits hs id c hid hc
  rw [hrecords.refuses_mono hrecords' h.prefix_log hq hstrong]
  exact hmarks slot s hs id c hid hc hstrong

/-- At the leader every change that comes of a message keeps the marks of refusal. -/
theorem change_marksRefused (h : base.Attends config log issued m log')
    (hleader : base.isLeader = true) (hrecords : log'.Records issued) (hmarks : r.MarksRefused log')
    (hc : Change (fun slot event => event.Fits log' base.isLeader slot ∧
      event.Planned base m slot) r effects r') : r'.MarksRefused log' := by
  refine hc.marksRefused hmarks (fun slot a hfit => ?_) fun slot p hfit hstrong => ?_
  · rw [hleader] at hfit
    simpa using hfit.1.1
  · exact h.sync_of_planned hrecords hfit.2 hstrong

theorem marksRefused (h : base.Attends config log issued m log') (hleader : base.isLeader = true)
    (hrecords : log.Records issued) (hrecords' : log'.Records issued)
    (hmarks : base.MarksRefused log) : (base.handle m).1.MarksRefused log' := by
  obtain ⟨-, -, hafter⟩ := h.preserves (P := fun r _ => r.MarksRefused log')
    (h.marksRefused_noted hrecords hrecords' hmarks)
    fun _ hp hc => h.change_marksRefused hleader hrecords' hp hc
  exact hafter

/-- A message that asks for no result makes the leader send the result of a strong command exactly
if that is due. -/
theorem settles (h : base.Attends config log issued m log') (hleader : base.isLeader = true)
    (hrecords : log.Records issued) (hrecords' : log'.Records issued)
    (hmarks : base.MarksRefused log) (hwaiting : base.Waiting issued)
    (hstrong : ∀ q ∈ issued, q.id = id → q.weak = false) (hsync : ∀ body, m ≠ .sync body) :
    Settles (log'.refuses id) id base (base.handle m).1 (base.handle m).2 := by
  have hstart : Settles (log'.refuses id) id base (base.noted m) [] := by
    have hvalue : (base.noted m).value? id = base.value? id := by
      rw [value?, values_noted, value?]
    refine ⟨?_, ?_, by simp [hvalue]⟩
    · rw [due, hvalue]
      cases base.value? id <;> rfl
    · rw [h.syncWaiters_noted hsync, hvalue]
      exact ⟨fun hid => ⟨hid, hwaiting.value?_eq_none hid⟩, And.left⟩
  obtain ⟨effects, hsplits, -, hafter⟩ := h.preserves
    (P := fun r sent => r.MarksRefused log' ∧ Settles (log'.refuses id) id base r sent)
    ⟨h.marksRefused_noted hrecords hrecords' hmarks, hstart⟩ fun hs hp hc => by
      refine ⟨h.change_marksRefused hleader hrecords' hp.1 hc, ?_⟩
      rw [hleader] at hs
      exact hp.2.change hs hrecords' hp.1 hstrong hc
  refine ⟨?_, hafter.waiting_iff, hafter.kept⟩
  rw [hsplits.filter_eq _ (fun _ => said_isSyncReply hsync) fun _ => rfl]
  exact hafter.sent_eq

/-- Only the leader tells anybody a committed result. -/
theorem leads_of_syncReply (h : base.Attends config log issued m log') {e : Effect}
    (he : e ∈ (base.handle m).2) (hsync : e.isSyncReply id = true) : base.isLeader = true := by
  by_contra hother
  by_cases hasks : ∃ body, m = .sync body
  · obtain ⟨body, rfl⟩ := hasks
    rw [handle_sync, if_neg hother] at he
    simp at he
  · obtain ⟨effects, hsplits, hsilent⟩ := h.preserves
      (P := fun _ sent => ∀ e ∈ sent, e.isSyncReply id = false) (by simp)
      fun {r r' sent effects} hs hp hc e he => by
        rcases List.mem_append.1 he with he | he
        · exact hp e he
        · cases hc with
          | opened hlive hexec => exact List.mem_singleton.1 he ▸ rfl
          | took hlive happlied hstale hfit =>
              rcases effects_apply he with rfl | ⟨_, rfl⟩ | ⟨_, _, ⟨_, rfl⟩ | ⟨_, rfl⟩⟩ <;> rfl
          | awaited hlive hexec => simp at he
          | executed hlive hx hturn =>
              rw [Bool.eq_false_iff]
              intro hsync
              have hmem := List.mem_filter.2 ⟨he, hsync⟩
              rw [filter_execute, hs.leads_eq] at hmem
              simp [hother] at hmem
    have hsaid : ∀ e, .emit e ∈ (base.respond m).steps → e.isSyncReply id = false :=
      fun e => said_isSyncReply fun body hm => hasks ⟨body, hm⟩
    have hnone : (base.handle m).2.filter (Effect.isSyncReply id) = [] := by
      rw [hsplits.filter_eq _ hsaid fun _ => rfl]
      exact List.filter_eq_nil_iff.2 fun e he => by simp [hsilent e he]
    exact absurd (List.mem_filter.2 ⟨he, hsync⟩) (by simp [hnone])

end Attends

end Replica

end WitnessReplication
