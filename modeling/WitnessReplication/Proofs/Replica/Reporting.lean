import WitnessReplication.Proofs.Replica.Carrying

/-!
# What a replica reports

The leader announces a slot when it gives that out: the announcements of a message are of the slots
that it adds to the log (`Attends.announcements`).

Any replica executes the slots one after another. What it reports as executed while it handles a
message are therefore the slots from where it was to where it gets, each once
(`Attends.executions`).
-/

namespace WitnessReplication.Replica

/-- The announcement that an effect makes. -/
def Effect.accept? : Effect → Option Accept
  | .accept a => some a
  | _ => none

/-- The slot that an effect reports as executed. -/
def Effect.executed? : Effect → Option Slot
  | .executed slot => some slot
  | _ => none

variable {log log' : Log} {config : Config} {leads : Bool} {issued : List Request}
variable {base r r' : Replica} {m : ReplicaMessage} {effects : List Effect}

/-! ### Announcing -/

theorem Effect.request?_eq (e : Effect) :
    e.request? = e.accept?.bind fun a => a.command.map fun c => ⟨a.id, c, a.weak⟩ := by
  cases e <;> rfl

/-- Every announcement is of a request. -/
theorem Attends.length_announcements (h : base.Attends config log issued m log') :
    ((base.handle m).2.filterMap Effect.accept?).length =
      ((base.handle m).2.filterMap Effect.request?).length := by
  have hrequests : (base.handle m).2.filterMap Effect.request? =
      ((base.handle m).2.filterMap Effect.accept?).filterMap
        (fun a => a.command.map fun c => Request.mk a.id c a.weak) := by
    rw [List.filterMap_filterMap]
    exact congrArg (List.filterMap · _) (funext Effect.request?_eq)
  rw [hrequests]
  apply Eq.symm
  apply List.filterMap_length_eq_length.2
  intro a ha
  obtain ⟨e, he, hea⟩ := List.mem_filterMap.1 ha
  cases e with
  | accept body =>
      obtain rfl := Option.some.inj hea
      obtain ⟨-, c, hc, -⟩ := h.serving.backed _ he _ fun _ => Nat.le_refl _
      rw [hc]
      rfl
  | _ => simp [Effect.accept?] at hea

/-- The leader announces the slot that it adds to the log, if it adds one. No other replica
announces any. -/
theorem Attends.announcements (h : base.Attends config log issued m log') :
    (log' = log ∧ (base.handle m).2.filterMap Effect.accept? = []) ∨
      base.isLeader = true ∧ ∃ q ∈ issued, m.request? = some q ∧ log' = log ++ [⟨q, base⟩] ∧
        (base.handle m).2.filterMap Effect.accept? =
          [base.acceptFor log.length q.id q.command q.weak] := by
  have hlength := h.length_announcements
  rcases h.log_eq_or with hsame | ⟨hleader, q, hq, hrequest, hnew, hlonger⟩
  · left
    refine ⟨hsame, ?_⟩
    cases hleader : base.isLeader with
    | true =>
        have hassigned : base.assigned m = [] := by
          simpa [hsame, hleader] using h.log_eq
        rw [List.map_eq_nil_iff.1 hassigned] at hlength
        exact List.length_eq_zero_iff.1 hlength
    | false =>
        refine List.filterMap_eq_nil_iff.2 fun e he => ?_
        cases e with
        | accept body =>
            obtain ⟨hleads, -⟩ := h.serving.backed _ he _ fun _ => Nat.le_refl _
            rw [hleader] at hleads
            simp at hleads
        | _ => rfl
  · right
    refine ⟨hleader, q, hq, hrequest, hlonger, ?_⟩
    have hassigned : base.assigned m = [⟨q, base⟩] := by
      have hlog := h.log_eq
      rw [hlonger, hleader, if_pos rfl] at hlog
      exact (List.append_cancel_left hlog).symm
    have hone : ((base.handle m).2.filterMap Effect.accept?).length = 1 := by
      rw [hlength]
      simpa [assigned] using congrArg List.length hassigned
    obtain ⟨a, ha⟩ := List.length_eq_one_iff.1 hone
    have haccept := ((h.leads hleader).handle_eq hrequest hnew).2
    have hmem : base.acceptFor log.length q.id q.command q.weak ∈
        (base.handle m).2.filterMap Effect.accept? := List.mem_filterMap.2 ⟨_, haccept, rfl⟩
    rw [ha] at hmem ⊢
    rw [List.mem_singleton.1 hmem]

/-! ### Executing -/

/-- A slot that takes an event reports no execution. -/
theorem executions_apply (r : Replica) (slot : Slot) (s : LiveSlot) (event : Event) :
    (r.apply slot s event).2.2.filterMap Effect.executed? = [] := by
  refine List.filterMap_eq_nil_iff.2 fun e he => ?_
  rcases effects_apply he with rfl | ⟨_, rfl⟩ | ⟨_, _, ⟨_, rfl⟩ | ⟨_, rfl⟩⟩ <;> rfl

/-- A slot that executes reports itself. -/
theorem executions_execute (r : Replica) (slot : Slot) (s : LiveSlot) (id : CommandId)
    (c : Command) : (r.execute slot s id c).2.filterMap Effect.executed? = [slot] := by
  have hanswers : ((r.execute slot s id c).1.answers s id (r.store.execute c).2
      (r.syncWaiters.contains id)).filterMap Effect.executed? = [] := by
    refine List.filterMap_eq_nil_iff.2 fun e he => ?_
    obtain ⟨-, rfl | ⟨causal, rfl⟩⟩ := mem_answers he <;> rfl
  rw [effects_execute_eq, List.filterMap_append, hanswers]
  split <;> rfl

/-- A change executes nothing, or the next slot. -/
theorem Change.executions {fits : Slot → Event → Prop} (h : r.Current)
    (hc : Change fits r effects r') :
    (effects.filterMap Effect.executed? = [] ∧ r'.executed = r.executed) ∨
      (effects.filterMap Effect.executed? = [r.executed] ∧ r'.executed = r.executed + 1) := by
  cases hc with
  | opened hlive hexec => exact .inl ⟨rfl, rfl⟩
  | @took slot s event hlive happlied hstale hfit =>
      exact .inl ⟨executions_apply r slot s event, executed_apply r slot s event⟩
  | awaited hlive hexec => exact .inl ⟨rfl, rfl⟩
  | @executed slot s id c hlive hx hturn =>
      obtain rfl := Nat.le_antisymm (h slot s hlive) hturn
      exact .inr ⟨executions_execute r r.executed s id c, executed_execute ..⟩

/-- What is reported over a sequence of changes are the slots from where a replica was to where it
gets. -/
theorem Change.executions_append {fits : Slot → Event → Prop} {sent : List Effect} {start : Slot}
    (h : r.Current) (hle : start ≤ r.executed)
    (hsent : sent.filterMap Effect.executed? = List.range' start (r.executed - start))
    (hc : Change fits r effects r') :
    (sent ++ effects).filterMap Effect.executed? = List.range' start (r'.executed - start) := by
  rw [List.filterMap_append, hsent]
  rcases hc.executions h with ⟨hnone, hsame⟩ | ⟨hone, hnext⟩
  · rw [hnone, hsame, List.append_nil]
  · rw [hone, hnext, Nat.succ_sub hle, List.range'_1_concat, Nat.add_sub_cancel' hle]

/-- Handling a message, a replica executes the slots from where it was to where it gets. -/
theorem kept_executions : Kept log base m fun r sent =>
    sent.filterMap Effect.executed? = List.range' base.executed (r.executed - base.executed) where
  changed hs h hc :=
    hc.executions_append (fun _ _ => hs.follows.executed_le_live) hs.le_executed h
  told client message _ h _ := by
    rw [List.filterMap_append, h]
    exact List.append_nil _
  announced body h := by
    rw [List.filterMap_append, h]
    exact List.append_nil _
  noted _ h hnoted := by
    obtain ⟨⟨_, _, _, _, _, _, rfl⟩, -⟩ := hnoted
    exact h

theorem Attends.executions (h : base.Attends config log issued m log') :
    (base.handle m).2.filterMap Effect.executed? =
      List.range' base.executed ((base.handle m).1.executed - base.executed) := by
  apply h.keeps kept_executions
  simp

end WitnessReplication.Replica
