import WitnessReplication.Proofs.Network.Soundness
import WitnessReplication.Proofs.Replica.Remembering

/-!
# Who waits at the leader

A client that asks for the committed result of a command is answered if the command has executed,
and otherwise waits until it does. Whoever has asked has therefore been answered, or still waits
(`Attends.heeds`), and whoever waits does so for a command that has not executed
(`Attends.waiting`).
-/

namespace WitnessReplication.Replica

/-- Clients wait at the leader only, for strong commands that have not executed. -/
def Waiting (issued : List Request) (r : Replica) : Prop :=
  ∀ id ∈ r.syncWaiters, r.isLeader = true ∧ r.values.contains id = false ∧
    ∃ q ∈ issued, q.id = id ∧ q.weak = false

variable {log log' : Log} {config : Config} {leads : Bool} {issued : List Request}
variable {base r r' : Replica} {m : ReplicaMessage} {q : Request} {effects : List Effect}
variable {id : CommandId} {slot : Slot} {s : LiveSlot} {c : Command} {fits : Slot → Event → Prop}

theorem waiting_initial (id : ReplicaId) (config : Config) :
    (initial id config).Waiting issued := by
  intro id hid
  simp [initial] at hid

/-! ### Executing -/

/-- Who waits for a strong command stops when the leader executes it. -/
theorem syncWaiters_execute (r : Replica) (slot : Slot) (s : LiveSlot) (id : CommandId)
    (c : Command) : (r.execute slot s id c).1.syncWaiters =
      if r.isLeader && !s.weak then r.syncWaiters.erase id else r.syncWaiters := by
  rw [execute_eq]

theorem syncWaiters_apply (r : Replica) (slot : Slot) (s : LiveSlot) (event : Event) :
    (r.apply slot s event).1.syncWaiters = r.syncWaiters := by
  obtain ⟨_, _, hframe⟩ := r.apply_frame slot s event
  rw [hframe]

/-- Whoever waits still waits after a change, or has been answered. -/
theorem Change.heeds (hc : Change fits r effects r') (h : id ∈ r.syncWaiters) :
    id ∈ r'.syncWaiters ∨ ∃ value, r.syncReply id value ∈ effects := by
  cases hc with
  | opened hlive hexec => exact .inl h
  | @took slot s event hlive happlied hstale hfit =>
      exact .inl (by simpa [putSlot, syncWaiters_apply] using h)
  | awaited hlive hexec => exact .inl h
  | @executed slot s id' c hlive hx hturn =>
      have hwaiters := syncWaiters_execute r slot s id' c
      have hwaiting : r.syncWaiters.contains id = true := Std.ExtTreeSet.contains_iff_mem.2 h
      by_cases hstops : (r.isLeader && !s.weak) = true ∧ id' = id
      · obtain ⟨hstops, rfl⟩ := hstops
        obtain ⟨hleader, hstrong⟩ : r.isLeader = true ∧ s.weak = false := by simpa using hstops
        right
        have hafter : (r.execute slot s id' c).1.isLeader = true ∧
            (r.execute slot s id' c).1.id = r.id := by
          obtain ⟨_, _, _, _, _, -, hframe⟩ := r.execute_frame id' c slot s
          rw [hframe]
          exact ⟨hleader, rfl⟩
        refine ⟨(r.store.execute c).2, ?_⟩
        rw [effects_execute_eq]
        generalize (r.execute slot s id' c).1 = r' at hafter
        refine List.mem_append_right _ ?_
        simp [answers, syncReply, hafter.1, hafter.2, hstrong, hwaiting]
      · left
        change id ∈ (r.execute slot s id' c).1.syncWaiters
        rw [hwaiters]
        split
        · rename_i hleader
          exact Std.ExtTreeSet.mem_erase.2 ⟨by simpa using fun heq => hstops ⟨hleader, heq⟩, h⟩
        · exact h

/-- A strong command that the leader executes is waited for no more, and no other has its id. -/
theorem Waiting.execute (h : r.Waiting issued) (hr : r.Follows log) (hrecords : log.Records issued)
    (hlive : r.live[slot]? = some s) (hx : s.executable? = some (id, c)) :
    ((r.execute slot s id c).1.dropSlot slot).Waiting issued := by
  obtain ⟨-, -, hsid, hsc⟩ := LiveSlot.executable?_eq_some hx
  have hslot := hr.live_fits hlive id c hsid hsc
  have hvalues := values_execute r slot s id c
  have hleader : ((r.execute slot s id c).1.dropSlot slot).isLeader = r.isLeader := by
    obtain ⟨_, _, _, _, _, -, hframe⟩ := r.execute_frame id c slot s
    rw [hframe]
    rfl
  intro id' hid'
  change id' ∈ (r.execute slot s id c).1.syncWaiters at hid'
  rw [syncWaiters_execute] at hid'
  have hold : id' ∈ r.syncWaiters := by
    split at hid'
    · exact Std.ExtTreeSet.mem_of_mem_erase hid'
    · exact hid'
  obtain ⟨hleads, hvalue, q, hq, rfl, hstrong⟩ := h id' hold
  refine ⟨hleader.trans hleads, ?_, q, hq, rfl, hstrong⟩
  have hne : id ≠ q.id := by
    rintro rfl
    have hsame := hrecords.issued_unique (hrecords.request_issued hslot) hq rfl
    have hsweak : s.weak = false := (congrArg Request.weak hsame).trans hstrong
    rw [hleads, hsweak] at hid'
    simp at hid'
  rw [hvalues, Std.ExtTreeMap.contains_insert, hvalue]
  simpa using hne

theorem Change.waiting (hs : Serving config leads log base r []) (hrecords : log.Records issued)
    (hc : Change fits r effects r') (h : r.Waiting issued) : r'.Waiting issued := by
  obtain ⟨_, _, _, rfl⟩ | ⟨slot, s, id, c, hlive, hx, hturn, rfl⟩ := hc.frame_or_executed
  · exact h
  · exact h.execute hs.follows hrecords hlive hx

/-! ### Handling a message -/

namespace Attends

/-- The leader notes a request by taking it up, or not at all. -/
theorem noted_of_isLeader (h : base.Attends config log issued m log')
    (hleader : base.isLeader = true) (hq : m.request? = some q) :
    base.noted m = base ∨ base.noted m = base.lead q := by
  cases hnew : q.weak || !base.slots.contains q.id with
  | true =>
      right
      exact (h.leads hleader).noted_eq hq fun hstrong => by simpa [hstrong] using hnew
  | false =>
      left
      obtain ⟨hstrong, hknown⟩ : q.weak = false ∧ base.slots.contains q.id = true := by
        simpa using hnew
      exact noted_known hleader hq hstrong hknown

/-- Only a client that asks begins to wait. -/
theorem syncWaiters_noted (h : base.Attends config log issued m log')
    (hsync : ∀ body, m ≠ .sync body) : (base.noted m).syncWaiters = base.syncWaiters := by
  cases hq : m.request? with
  | none =>
      cases m with
      | sync body => exact absurd rfl (hsync body)
      | accept a => rfl
      | acceptAck a => rfl
      | commit b => rfl
      | batch b => rfl
      | _ => simp [ReplicaMessage.request?] at hq
  | some q =>
      cases hleader : base.isLeader with
      | true =>
          obtain ⟨_, _, _, _, hframe⟩ := (h.leads hleader).lead_frame q
          rcases h.noted_of_isLeader hleader hq with hsame | hled
          · rw [hsame]
          · rw [hled, hframe]
      | false =>
          cases hweak : q.weak with
          | true =>
              obtain ⟨_, hpending⟩ := base.recordPending_frame q.id q.command
              obtain ⟨_, _, hframe⟩ :=
                (base.recordPending q.id q.command).recordWitness_frame q.id q.command false
              rw [noted_weak_of_not_isLeader hleader hq hweak, hframe, hpending]
              split <;> rfl
          | false =>
              obtain ⟨_, _, hframe⟩ := base.recordWitness_frame q.id q.command true
              rw [noted_strong_of_not_isLeader hleader hq hweak, hframe]
              split <;> rfl

/-- Whoever waits at a replica still waits after a message, or has been answered. At the leader
this also holds of the client that asks. -/
theorem heeds (h : base.Attends config log issued m log')
    (hid : id ∈ base.syncWaiters ∨ base.isLeader = true ∧ m = .sync ⟨id⟩) :
    id ∈ (base.handle m).1.syncWaiters ∨ ∃ value, base.syncReply id value ∈ (base.handle m).2 := by
  have hnoted : id ∈ (base.noted m).syncWaiters ∨
      ∃ value, .emit (base.syncReply id value) ∈ (base.respond m).steps := by
    by_cases hsync : ∃ body, m = .sync body
    · obtain ⟨body, rfl⟩ := hsync
      simp only [noted, respond, respondSync]
      cases hleader : base.isLeader with
      | false => exact .inl (hid.resolve_right (by simp [hleader]))
      | true =>
          have hbody : id ∈ base.syncWaiters ∨ body.id = id :=
            hid.imp_right fun hasks => by simp [ReplicaMessage.sync.inj hasks.2]
          cases hvalue : base.values[body.id]? with
          | none => exact .inl (by simpa [hvalue, or_comm] using hbody)
          | some value =>
              rcases hbody with hold | rfl
              · exact .inl (by simpa using hold)
              · exact .inr ⟨value, by simp⟩
    · have hnot : ∀ body, m ≠ .sync body := fun body hm => hsync ⟨body, hm⟩
      rw [h.syncWaiters_noted hnot]
      exact .inl (hid.resolve_right fun hasks => hnot _ hasks.2)
  rcases hnoted with hwaits | ⟨value, hsaid⟩
  · obtain ⟨effects, hsplits, hafter⟩ := h.preserves
      (P := fun r sent => id ∈ r.syncWaiters ∨ ∃ value, base.syncReply id value ∈ sent)
      (.inl hwaits) fun hs hp hc => by
        rcases hp with hwaits | ⟨value, hmem⟩
        · refine (hc.heeds hwaits).imp_right ?_
          rintro ⟨value, hmem⟩
          refine ⟨value, ?_⟩
          rw [syncReply, ← hs.id_eq]
          exact List.mem_append_right _ hmem
        · exact .inr ⟨value, List.mem_append_left _ hmem⟩
    refine hafter.imp_right ?_
    rintro ⟨value, hmem⟩
    exact ⟨value, hsplits.subset hmem⟩
  · exact .inr ⟨value, mem_handle hsaid⟩

/-- Whoever is left waiting after a message waits for a command that has not executed. -/
theorem waiting (h : base.Attends config log issued m log') (hrecords : log'.Records issued)
    (hasked : ∀ body, m = .sync body → ∃ q ∈ issued, q.id = body.id ∧ q.weak = false)
    (hwaiting : base.Waiting issued) : (base.handle m).1.Waiting issued := by
  have hnoted : (base.noted m).Waiting issued := by
    by_cases hsync : ∃ body, m = .sync body
    · obtain ⟨body, rfl⟩ := hsync
      simp only [noted, respond, respondSync]
      cases hleader : base.isLeader with
      | false => exact hwaiting
      | true =>
          cases hvalue : base.values[body.id]? with
          | some value => exact hwaiting
          | none =>
              intro id hid
              rcases Std.ExtTreeSet.mem_insert.1 hid with heq | hold
              · obtain rfl := Std.LawfulEqOrd.eq_of_compare heq
                refine ⟨hleader, ?_, hasked body rfl⟩
                simp [Std.ExtTreeMap.contains_eq_isSome_getElem?, hvalue]
              · exact hwaiting id hold
    · have hsame := h.syncWaiters_noted fun body hm => hsync ⟨body, hm⟩
      obtain ⟨⟨_, _, _, _, _, _, hframe⟩, -⟩ := noted_noted base m
      intro id hid
      rw [hsame] at hid
      rw [hframe]
      exact hwaiting id hid
  obtain ⟨-, -, hafter⟩ := h.preserves (P := fun r _ => r.Waiting issued) hnoted
    fun hs hp hc => hc.waiting hs hrecords hp
  exact hafter

end Attends

end WitnessReplication.Replica
