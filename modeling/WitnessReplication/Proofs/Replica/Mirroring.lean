import WitnessReplication.Proofs.Mirroring
import WitnessReplication.Proofs.Replica.Noting

/-!
# The leader's witness and what the leader does

Whatever message the leader handles, its witness counts the unexecuted slots of the log afterwards
if it did before: the leader gives a request the next slot, and then slots execute in order.
-/

namespace WitnessReplication

/-- No two slots of a log have requests with the same id. -/
def Log.SingleSlots (log : Log) : Prop :=
  ∀ slot slot' q q', log.request? slot = some q → log.request? slot' = some q' → q.id = q'.id →
    slot = slot'

namespace Replica

variable {log log' : Log} {config : Config} {issued : List Request} {base r r' : Replica}
variable {m : ReplicaMessage} {q : Request} {effects : List Effect}

/-- The witness of a replica counts the slots of a log that the replica has not executed. -/
def MirrorsLog (log : Log) (r : Replica) : Prop := r.witness.Mirrors log r.executed

/-- Every change keeps the leader's witness counting the unexecuted slots. -/
theorem Change.mirrorsLog (hleads : r.Leads log) (hsingle : log.SingleSlots)
    {fits : Slot → Event → Prop} (hc : Change fits r effects r') (h : r.MirrorsLog log) :
    r'.MirrorsLog log := by
  obtain ⟨_, _, _, rfl⟩ | ⟨slot, s, id, c, hlive, hx, hturn, rfl⟩ := hc.frame_or_executed
  · exact h
  · obtain ⟨-, -, hid, hcommand⟩ := LiveSlot.executable?_eq_some hx
    have hq := hleads.live_fits hlive id c hid hcommand
    obtain rfl := hleads.eq_executed hlive hturn
    have hunique : ∀ q' ∈ log.waiting (r.executed + 1), q'.id ≠ id := by
      rintro q' hmem rfl
      obtain ⟨slot, hlt, hq'⟩ := Log.mem_waiting.1 hmem
      exact Nat.ne_of_gt hlt (hsingle _ _ _ _ hq' hq rfl)
    have hrelease := Witness.Mirrors.release h hleads.tracks hq hunique
    unfold MirrorsLog
    rw [dropSlot, execute_eq]
    simpa [hleads.tracks.isLeader] using hrelease

/-- Taking up a request gives it the next slot in the witness. -/
theorem Leads.mirrorsLog_lead (h : r.Leads log) (q : Request) (hmirrors : r.MirrorsLog log) :
    (r.lead q).MirrorsLog (log ++ [⟨q, r⟩]) := by
  have hassign := Witness.Mirrors.assign hmirrors h.tracks ⟨q, r⟩ h.executed_le
  obtain ⟨w, htracks, -⟩ := h.tracks.assign ⟨q, r⟩ h.executed_le
  obtain ⟨pendingWrites, hframe⟩ := recordPending_frame
    (r.assign q.id q.command (!q.weak)).1 q.id q.command
  unfold MirrorsLog
  rw [Replica.lead, hframe]
  simpa [Replica.assign, h.nextSlot_eq, htracks] using hassign

namespace Attends

/-- The leader's witness counts the unexecuted slots after every message. -/
theorem mirrorsLog (h : base.Attends config log issued m log') (hleader : base.isLeader = true)
    (hsingle : log'.SingleSlots) (hmirrors : base.MirrorsLog log) :
    (base.handle m).1.MirrorsLog log' := by
  have hleads := h.leads hleader
  have hkept : ∀ r : Replica, r.Leads log → r.MirrorsLog log →
      (∀ q, m.request? = some q → q.weak = false ∧ base.slots.contains q.id = true) →
        r.Leads log' ∧ r.MirrorsLog log' := by
    intro r hr hrm hold
    rcases h.log_eq_or with hlog | ⟨-, q, -, hm, hnew, -⟩
    · exact hlog ▸ ⟨hr, hrm⟩
    · obtain ⟨hstrong, hknown⟩ := hold q hm
      rw [hnew hstrong] at hknown
      simp at hknown
  have hnoted : (base.noted m).Leads log' ∧ (base.noted m).MirrorsLog log' := by
    cases hq : m.request? with
    | none =>
        obtain ⟨syncWaiters, hframe⟩ := noted_of_request?_eq_none (r := base) hq
        refine hkept _ ?_ ?_ (by simp [hq])
        · rw [hframe]
          exact hleads.congr (hleads.toFollows.congr rfl rfl rfl rfl) rfl rfl rfl rfl rfl rfl
        · rw [hframe]
          exact hmirrors
    | some q =>
        by_cases hnew : q.weak = false → base.slots.contains q.id = false
        · rw [hleads.noted_eq hq hnew, h.log_eq_of_new hleader hq hnew]
          exact ⟨hleads.lead q, hleads.mirrorsLog_lead q hmirrors⟩
        · obtain ⟨hstrong, hknown⟩ : q.weak = false ∧ base.slots.contains q.id = true := by
            simpa using hnew
          rw [noted_known hleader hq hstrong hknown]
          refine hkept base hleads hmirrors fun q' hq' => ?_
          obtain rfl := Option.some.inj (hq.symm.trans hq')
          exact ⟨hstrong, hknown⟩
  obtain ⟨-, -, hafter⟩ := h.preserves (P := fun r _ => r.Leads log' ∧ r.MirrorsLog log') hnoted
    fun _ hp hc => ⟨(hc.mono fun _ _ hfit => hleader ▸ hfit.1).leads hp.1,
      hc.mirrorsLog hp.1 hsingle hp.2⟩
  exact hafter.2

end Attends

end Replica

end WitnessReplication
