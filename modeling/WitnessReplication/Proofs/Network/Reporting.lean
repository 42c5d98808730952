import WitnessReplication.Proofs.Network.Vouching
import WitnessReplication.Proofs.Replica.Reporting

/-!
# What replicas report over a run

The trace of a replica is all that it has done to the world outside it. The announcements in the
leader's trace are the slots of the log in order, and the executions in the trace of any replica
are the slots up to where it is, in order (`Reports`). The commands that a replica has executed are
therefore those of a first part of the log, each as often as it has slots there.
-/

namespace WitnessReplication

/-- The announcement of an assignment. -/
def Assignment.announcement (slot : Slot) (a : Assignment) : Accept :=
  a.leader.acceptFor slot a.id a.command a.weak

/-- The requests of the first slots. -/
theorem Log.filterMap_request?_range {log : Log} {count : Nat} (h : count ≤ log.length) :
    (List.range count).filterMap log.request? =
      (log.take count).map Assignment.toRequest := by
  induction count with
  | zero => rfl
  | succ count ih =>
      have hlt : count < log.length := Nat.lt_of_succ_le h
      have hrequest := Log.request?_of_getElem? (List.getElem?_eq_getElem hlt)
      rw [List.range_succ, List.filterMap_append, ih (Nat.le_of_lt hlt), List.filterMap_cons,
        hrequest, List.filterMap_nil, List.take_succ_eq_append_getElem hlt, List.map_append]
      rfl

namespace Chronicle

open Network Replica

/-- What a replica has done to the world outside it. -/
def trace (c : Chronicle) (id : ReplicaId) : List Effect :=
  (c.handled.filter fun d => d.replica.id = id).flatMap Handling.effects

/-- The slots that a replica has announced, in the order in which it did. -/
def announcements (c : Chronicle) (id : ReplicaId) : List Accept :=
  (c.trace id).filterMap Effect.accept?

/-- The slots that a replica has executed, in the order in which it did. -/
def executions (c : Chronicle) (id : ReplicaId) : List Slot :=
  (c.trace id).filterMap Effect.executed?

/-- The requests that a replica has executed, in the order in which it did. -/
def executed (c : Chronicle) (id : ReplicaId) : List Request :=
  (c.executions id).filterMap c.log.request?

/-- The leader alone has announced slots, those of the log, and every replica has executed the
slots up to where it is. -/
structure Reports (config : Config) (c : Chronicle) : Prop where
  announcements_eq : c.announcements config.leader = c.log.mapIdx Assignment.announcement
  announcements_other : ∀ i : ReplicaId, i ≠ config.leader → c.announcements i = []
  executions_eq : ∀ (i : ReplicaId) r, c.network.replicas[i]? = some r →
    c.executions i = List.range r.executed

variable {config : Config} {bounds : List ReplicaId} {c c' : Chronicle} {i id : ReplicaId}
variable {r : Replica} {m : ReplicaMessage}

theorem Quiet.trace_eq (h : c.Quiet c') (i : ReplicaId) : c'.trace i = c.trace i := by
  unfold trace
  rw [h.handled_eq]

/-- The replica that handles a message adds to its trace, and no other does. -/
theorem Handles.trace_eq (h : c.Handles id r m c') (hs : c.Sound config) (i : ReplicaId) :
    c'.trace i = if i = id then c.trace i ++ (r.handle m).2 else c.trace i := by
  have hid := h.id_eq hs
  unfold trace
  rw [h.handled_eq, List.filter_append, List.flatMap_append]
  split
  · rename_i hsame
    simp [hid, hsame, Handling.effects]
  · rename_i hother
    simp [hid, Ne.symm hother]

/-- What can be read off a trace grows with what the replica does. -/
theorem Handles.filterMap_trace {α : Type} (h : c.Handles id r m c') (hs : c.Sound config)
    (i : ReplicaId) (f : Effect → Option α) :
    (c'.trace i).filterMap f =
      if i = id then (c.trace i).filterMap f ++ (r.handle m).2.filterMap f
      else (c.trace i).filterMap f := by
  rw [h.trace_eq hs]
  split
  · exact List.filterMap_append
  · rfl

/-- The leader announces what it adds to the log. -/
theorem Handles.announcements_leader (h : c.Handles id r m c') (hs : c.Sound config)
    (hr : c.Reports config) :
    c'.announcements config.leader = c'.log.mapIdx Assignment.announcement := by
  have hleader := hs.replicas.isLeader_eq h.replica
  have hold := hr.announcements_eq
  rw [announcements] at hold
  rw [announcements, h.filterMap_trace hs, hold]
  rcases (h.attends hs).announcements with ⟨hlog, hnone⟩ | ⟨hleads, q, -, -, hlog, hone⟩
  · rw [hlog, hnone, List.append_nil, ite_self]
  · have hid : config.leader = id := by
      rw [hleads] at hleader
      exact (of_decide_eq_true hleader.symm).symm
    rw [if_pos hid, hone, hlog, List.mapIdx_concat]
    rfl

/-- No other replica announces anything. -/
theorem Handles.announcements_other (h : c.Handles id r m c') (hs : c.Sound config)
    (hr : c.Reports config) (hother : i ≠ config.leader) : c'.announcements i = [] := by
  have hleader := hs.replicas.isLeader_eq h.replica
  have hold := hr.announcements_other i hother
  rw [announcements] at hold
  rw [announcements, h.filterMap_trace hs, hold]
  split
  · rename_i hid
    rcases (h.attends hs).announcements with ⟨-, hnone⟩ | ⟨hleads, -⟩
    · exact hnone
    · rw [hleads, ← hid] at hleader
      exact absurd (of_decide_eq_true hleader.symm) hother
  · rfl

/-- A replica goes on executing where it was. -/
theorem Handles.executions (h : c.Handles id r m c') (hs : c.Sound config) (hr : c.Reports config)
    {r' : Replica} (hi : c'.network.replicas[i]? = some r') :
    c'.executions i = List.range r'.executed := by
  have hattends := h.attends hs
  rw [Chronicle.executions, h.filterMap_trace hs]
  rcases h.replica_eq hi with ⟨rfl, rfl⟩ | ⟨hother, hi⟩
  · have hold := hr.executions_eq i r h.replica
    have hle := hattends.serving.le_executed
    rw [Chronicle.executions, List.range_eq_range'] at hold
    rw [if_pos rfl, hold, hattends.executions, List.range_eq_range']
    calc List.range' 0 r.executed ++
          List.range' r.executed ((r.handle m).1.executed - r.executed)
        = List.range' 0 (r.executed + ((r.handle m).1.executed - r.executed)) := by
          rw [← List.range'_append_1, Nat.zero_add]
      _ = List.range' 0 (r.handle m).1.executed := by rw [Nat.add_sub_cancel' hle]
  · rw [if_neg hother]
    exact hr.executions_eq i r' hi

/-- Every step announces what it adds to the log, and goes on executing where it was. -/
theorem Step.reports (h : c.Step c') (hs : c.Sound config) (hr : c.Reports config) :
    c'.Reports config := by
  rcases h.quiet_or_handles hs with hquiet | ⟨id, r, m, hhandles⟩
  · constructor
    case announcements_eq =>
      rw [announcements, hquiet.trace_eq, hquiet.log_eq]
      exact hr.announcements_eq
    case announcements_other =>
      intro i hother
      rw [announcements, hquiet.trace_eq]
      exact hr.announcements_other i hother
    case executions_eq =>
      intro i r hi
      rw [executions, hquiet.trace_eq]
      exact hr.executions_eq i r (hquiet.replicas_eq ▸ hi)
  · constructor
    case announcements_eq => exact hhandles.announcements_leader hs hr
    case announcements_other => exact fun i hother => hhandles.announcements_other hs hr hother
    case executions_eq => exact fun i r' hi => hhandles.executions hs hr hi

theorem Reachable.reports (hc : c.Reachable config bounds) : c.Reports config := by
  refine hc.induct (fun n hn => ⟨rfl, fun _ _ => rfl, ?_⟩) fun c c' hs hstep hr =>
    hstep.reports hs hr
  intro i r hi
  rw [replicas_start hn hi]
  rfl

/-- A replica has executed a first part of the log. -/
theorem Reachable.executed_eq (hc : c.Reachable config bounds)
    (hr : c.network.replicas[i]? = some r) :
    c.executed i = (c.log.take r.executed).map Assignment.toRequest := by
  have hle := (hc.history.sound.replicas.follows hr).executed_le
  rw [executed, hc.reports.executions_eq i r hr, Log.filterMap_request?_range hle]

end Chronicle

end WitnessReplication
