import WitnessReplication.Proofs.Replica.Answering

/-!
# What a replica says at once

The leader answers a strong command in the step in which it gives that a slot, any other replica
gives its verdict when it records a command, and where every replica takes weak commands each
answers one when it arrives.
-/

namespace WitnessReplication.Replica

variable {log log' : Log} {config : Config} {issued : List Request} {r base : Replica}
variable {m : ReplicaMessage} {q : Request}

/-- The leader answers a strong command that has no slot yet. -/
theorem Leads.replies (h : r.Leads log) (hq : m.request? = some q) (hstrong : q.weak = false)
    (hnew : r.slots.contains q.id = false) :
    ∃ value ok, .tell q.id.client (.reply ⟨r.id, q.id, value, ok⟩) ∈ (r.handle m).2 := by
  obtain rfl := ReplicaMessage.eq_propose hq hstrong
  have hpropose := h.leadPropose_eq hstrong hnew
  refine ⟨r.speculate q.id q.command true, r.verdict q.command.key, mem_handle ?_⟩
  simp only [respond, h.isLeader, if_true]
  rw [hpropose]
  exact List.mem_cons_of_mem _ List.mem_cons_self

/-- A replica that does not lead gives its verdict on a strong command that it has not recorded. -/
theorem attests (hleader : r.isLeader = false) (hq : m.request? = some q) (hstrong : q.weak = false)
    (hnew : q.id ∉ r.witnessed) :
    ∃ ok dep, .tell q.id.client (.recordAck ⟨r.id, r.config.ballot, q.id, ok, dep⟩) ∈
      (r.handle m).2 := by
  obtain rfl := ReplicaMessage.eq_propose hq hstrong
  refine ⟨(r.recordWitness q.id q.command true).2.ok,
    (r.recordWitness q.id q.command true).2.weakDep, mem_handle ?_⟩
  have hunknown : r.witnessed.contains q.id = false := by
    rw [← Bool.not_eq_true, Std.ExtTreeMap.contains_iff_mem]
    exact hnew
  simp only [respond, hleader, witnessPropose, hunknown, Bool.false_eq_true, if_false]
  exact List.mem_cons_self

/-- Where every replica takes weak commands, it answers one that comes as a causal one. -/
theorem answers_causal (hvariant : r.config.variant = .everyReplica) (body : WeakPropose) :
    ∃ value, .tell body.id.client (.causalReply ⟨r.id, body.id, value⟩) ∈
      (r.handle (.causalPropose body)).2 := by
  refine ⟨r.speculate body.id body.command false, mem_handle ?_⟩
  rw [respond, steps_respondWeak hvariant]
  exact List.mem_cons_self

end WitnessReplication.Replica
