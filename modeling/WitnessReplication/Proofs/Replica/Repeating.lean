import WitnessReplication.Proofs.Pending
import WitnessReplication.Proofs.Replica.Carrying

/-!
# What a repeated weak command does

No replica looks whether it has handled a weak command before. The leader gives every copy a slot
of its own, and knows the command by the last one (`Leads.handle_weak_numbering`). Another replica
gives out no slots, but where every replica takes weak commands it counts each copy as pending
(`handle_weak_pending`), unless the command has executed.
-/

namespace WitnessReplication.Replica

variable {log log' : Log} {config : Config} {issued : List Request} {base r r' : Replica}
variable {m : ReplicaMessage} {q : Request} {effects : List Effect}

/-! ### At the leader -/

/-- No change gives out a slot. -/
theorem Change.numbering {fits : Slot → Event → Prop} (h : Change fits r effects r') :
    r'.nextSlot = r.nextSlot ∧ r'.slots = r.slots := by
  obtain ⟨_, _, _, rfl⟩ | ⟨slot, s, id, c, -, -, -, rfl⟩ := h.frame_or_executed
  · exact ⟨rfl, rfl⟩
  · obtain ⟨_, _, _, _, _, -, hframe⟩ := r.execute_frame id c slot s
    rw [hframe]
    exact ⟨rfl, rfl⟩

theorem numbering_route (r : Replica) (slot : Slot) (event : Event) :
    (r.route slot event).1.nextSlot = r.nextSlot ∧ (r.route slot event).1.slots = r.slots := by
  have hroute : Changes (fun _ _ => True) r (r.route slot event).2 (r.route slot event).1 :=
    changes_route trivial
  apply hroute.preserve (P := fun r' _ => r'.nextSlot = r.nextSlot ∧ r'.slots = r.slots) ?_ []
  · exact ⟨rfl, rfl⟩
  · intro r₁ r₂ sent effects hp hc
    exact ⟨hc.numbering.1.trans hp.1, hc.numbering.2.trans hp.2⟩

theorem Leads.slots_lead (h : r.Leads log) (q : Request) :
    (r.lead q).slots = r.slots.insert q.id log.length := by
  obtain ⟨_, -, -, hassign⟩ := h.assign_eq q
  obtain ⟨_, hframe⟩ := recordPending_frame
    (r.assign q.id q.command (!q.weak)).1 q.id q.command
  rw [Replica.lead, hframe, hassign]

/-- The leader gives the next slot to every copy of a weak command, and then knows the command by
that slot. -/
theorem Leads.handle_weak_numbering (h : r.Leads log) (hq : m.request? = some q)
    (hweak : q.weak = true) :
    (r.handle m).1.nextSlot = r.nextSlot + 1 ∧ (r.handle m).1.slot? q.id = some r.nextSlot := by
  obtain ⟨⟨sync, reply, causal, hhandle⟩, -⟩ := h.handle_eq hq (by simp [hweak])
  obtain ⟨hnext, hslots⟩ := (r.lead q).numbering_route log.length
    (.propose ⟨q.id, q.command, q.weak, sync, reply, causal⟩)
  constructor
  · rw [hhandle, hnext, (h.lead q).nextSlot_eq, h.nextSlot_eq, List.length_append,
      List.length_singleton]
  · rw [hhandle, slot?, hslots, h.slots_lead, h.nextSlot_eq]
    exact Std.ExtTreeMap.getElem?_insert_self

/-- The leader adds every command that it takes up to its log. -/
theorem Attends.log_eq_of_new (h : base.Attends config log issued m log')
    (hleader : base.isLeader = true) (hq : m.request? = some q)
    (hnew : q.weak = false → base.slots.contains q.id = false) : log' = log ++ [⟨q, base⟩] := by
  have hleads := h.leads hleader
  have hlog := h.log_eq
  rw [hleader, if_pos rfl] at hlog
  rw [hlog]
  cases hkind : q.weak with
  | false =>
      obtain rfl := ReplicaMessage.eq_propose hq hkind
      rw [(hleads.handle_propose h.config_eq ⟨q.id, q.command⟩ (hnew hkind)).assigned_eq, ← hkind]
  | true =>
      obtain ⟨body, causal, rfl, hrespond⟩ := respond_weak hq hkind
      rw [(hleads.handle_weak h.config_eq (hrespond base)).assigned_eq]

/-- Every weak command that comes to the leader is added to its log. -/
theorem Attends.log_eq_of_weak (h : base.Attends config log issued m log')
    (hleader : base.isLeader = true) (hq : m.request? = some q) (hweak : q.weak = true) :
    log' = log ++ [⟨q, base⟩] :=
  h.log_eq_of_new hleader hq (by simp [hweak])

/-! ### Elsewhere -/

/-- Another replica witnesses a weak command where every replica takes those. -/
theorem handle_weak_of_not_isLeader (hleader : r.isLeader = false) (hq : m.request? = some q)
    (hweak : q.weak = true) :
    (r.handle m).1 = if r.config.variant = .everyReplica then
      ((r.recordPending q.id q.command).recordWitness q.id q.command false).1 else r := by
  obtain ⟨body, causal, rfl, hrespond⟩ := respond_weak hq hweak
  obtain ⟨pendingWrites, hpending⟩ := r.recordPending_frame body.id body.command
  obtain ⟨witness, witnessed, hframe⟩ :=
    (r.recordPending body.id body.command).recordWitness_frame body.id body.command false
  have hrecorded : (r.recordPending body.id body.command).isLeader = false := by
    rw [hpending]
    exact hleader
  have hwitnessed : ((r.recordPending body.id body.command).recordWitness body.id body.command
      false).1.isLeader = false := by
    rw [hframe]
    exact hrecorded
  have hconfig : (r.recordPending body.id body.command).config = r.config := by rw [hpending]
  unfold handle
  rw [hrespond]
  unfold respondWeak witnessWeak
  cases hvariant : r.config.variant with
  | leaderOnly => simp [hleader, Variant.accepts, performAll]
  | everyReplica =>
      simp only [hrecorded, hwitnessed, hconfig, hvariant, Variant.accepts, Variant.witnesses,
        Bool.not_true, Bool.false_eq_true, if_false, if_true]
      split <;> rfl

/-- Another replica gives out no slot for a copy of a weak command. Where every replica takes weak
commands it counts the copy as pending on its key, unless the command has executed. -/
theorem handle_weak_pending (hleader : r.isLeader = false) (hq : m.request? = some q)
    (hweak : q.weak = true) :
    (r.handle m).1.nextSlot = r.nextSlot ∧ (r.handle m).1.slots = r.slots ∧
      ∀ key, (r.handle m).1.witness.pendingCount key = r.witness.pendingCount key +
        if r.config.variant = .everyReplica ∧ q.command.key = key ∧
          r.values.contains q.id = false then 1 else 0 := by
  obtain ⟨pendingWrites, hpending⟩ := r.recordPending_frame q.id q.command
  obtain ⟨witness, witnessed, hframe⟩ :=
    (r.recordPending q.id q.command).recordWitness_frame q.id q.command false
  rw [handle_weak_of_not_isLeader hleader hq hweak]
  by_cases hvariant : r.config.variant = .everyReplica
  · rw [if_pos hvariant]
    refine ⟨by rw [hframe, hpending], by rw [hframe, hpending], fun key => ?_⟩
    rw [pendingCount_recordWitness, hpending]
    simp [hvariant]
  · rw [if_neg hvariant]
    exact ⟨rfl, rfl, by simp [hvariant]⟩

end WitnessReplication.Replica
