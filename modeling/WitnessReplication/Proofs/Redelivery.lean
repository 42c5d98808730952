import WitnessReplication.Proofs.Network.Heeding
import WitnessReplication.Proofs.Network.Recording
import WitnessReplication.Proofs.Replica.Idling

/-!
# Redelivered messages

The messages by which the log is replicated may come twice, and so may a strong command at the
leader. The second time, and any later time, they do nothing at all: the replica stays as it is and
sends nothing, whatever has become of the slot since (`Chronicle.redelivery`). The same holds of a
message of another epoch, also the first time.

What has been handled keeps its effect (`Chronicle.ReachableBy.heeds`), so the slot takes nothing
new from the message; and trying the slot again has no effect, because whatever could execute has
done so (`Chronicle.ReachableBy.steady`).
-/

namespace WitnessReplication.Chronicle

open Network Replica

/-- A message that is of no more use to a replica. -/
inductive Spent (config : Config) (c : Chronicle) (i : ReplicaId) : ReplicaMessage → Prop
  /-- It belongs to another epoch. -/
  | stale {m : ReplicaMessage} {ballot : Ballot} (hballot : m.ballot? = some ballot)
      (hstale : ballot ≠ config.ballot) : Spent config c i m
  /-- It replicates the log, and the replica has handled it. -/
  | handled {m : ReplicaMessage} {ballot : Ballot} (hballot : m.ballot? = some ballot)
      (hhandled : ∃ d ∈ c.handled, d.replica.id = i ∧ d.message = m) : Spent config c i m
  /-- It is a strong command that the leader has handled. -/
  | ordered {body : Propose} (hleader : i = config.leader)
      (hhandled : ∃ d ∈ c.handled, d.replica.id = i ∧ d.message = .propose body) :
      Spent config c i (.propose body)

variable {rule : Rule} {config : Config} {bounds : List ReplicaId} {c : Chronicle}
variable {i : ReplicaId} {r : Replica} {m : ReplicaMessage} {body : Propose}

/-- A slot takes nothing more from a message of the epoch that has had its effect. -/
theorem handle_of_heeds (hs : c.Sound config) (hr : c.network.replicas[i]? = some r)
    (hsteady : r.Steady c.log.length ∅) (hballot : m.ballot? = some config.ballot)
    (hheeds : c.Heeds config i r m) : r.handle m = (r, []) := by
  cases m with
  | accept a =>
      refine handle_eq_self rfl fun step hstep => ?_
      rw [List.mem_singleton.1 hstep]
      exact hsteady.route_of_carries (hheeds (Option.some.inj hballot))
        fun _ => apply_accept_of_accepted a.slot a
  | acceptAck a =>
      refine handle_acceptAck_eq_self a fun hleader => ?_
      rw [hs.replicas.isLeader_eq hr, decide_eq_true_iff] at hleader
      exact hsteady.route_of_carries (hheeds hleader (Option.some.inj hballot)).2
        fun _ => apply_acceptAck_of_hears a.slot a
  | commit b =>
      refine handle_eq_self rfl fun step hstep => ?_
      rw [List.mem_singleton.1 hstep]
      exact hsteady.route_of_carries (hheeds (Option.some.inj hballot))
        fun _ => apply_commit_of_committed b.slot b
  | _ => simp [ReplicaMessage.ballot?] at hballot

/-- The leader passes over a strong command that has come to it before. -/
theorem ReachableBy.handle_propose (hc : c.ReachableBy rule config bounds)
    (hr : c.network.replicas[config.leader]? = some r)
    (hgot : c.Got config.leader ⟨body.id, body.command, false⟩) :
    r.handle (.propose body) = (r, []) := by
  have hleads := hc.reachable.history.sound.replicas.leads hr
  obtain ⟨slot, hslot⟩ := hc.ordered config.leader r hr rfl _ hgot
  have hknown : r.slots.contains body.id = true := hleads.slots_complete hslot
  have hrespond : r.respond (.propose body) = ⟨r, [], none⟩ := by
    simp [respond, hleads.isLeader, leadPropose, hknown]
  exact handle_eq_self hrespond (by simp)

/-- Whatever is delivered when it is of no more use changes nothing in the replica, and makes it
send nothing. -/
theorem redelivery (hc : c.Reachable config bounds) (hr : c.network.replicas[i]? = some r)
    (hspent : c.Spent config i m) :
    r.handle m = (r, []) ∧ c.network.receive (.toReplica i m) = (c.network, none) := by
  have hs := hc.history.sound
  have hby := hc.reachableBy
  have hsteady := hby.steady i r hr
  have hsame : r.handle m = (r, []) := by
    cases hspent with
    | stale hballot hstale =>
        rw [← hs.replicas.config_eq hr] at hstale
        exact hsteady.handle_of_stale hballot hstale
    | @handled _ ballot hballot hhandled =>
        obtain ⟨d, hd, hid, rfl⟩ := hhandled
        by_cases hstale : ballot = config.ballot
        · subst hstale
          exact handle_of_heeds hs hr hsteady hballot (hby.heeds i r hr d (mem_own.2 ⟨hd, hid⟩))
        · rw [← hs.replicas.config_eq hr] at hstale
          exact hsteady.handle_of_stale hballot hstale
    | ordered hleader hhandled =>
        subst hleader
        obtain ⟨d, hd, hid, hm⟩ := hhandled
        exact hby.handle_propose hr ⟨d, hd, hid, by rw [hm, ReplicaMessage.request?], trivial⟩
  refine ⟨hsame, ?_⟩
  have hset : c.network.replicas.set i r = c.network.replicas := by
    obtain ⟨hlt, hget⟩ := List.getElem?_eq_some_iff.1 hr
    rw [← hget, List.set_getElem_self]
  simp [receive, hr, Replica.step, hsame, hset, post]

/-- Two clients write at once. The second slot is committed at the leader and waits for the
first. -/
def secondSlotFirst : List Network.Action :=
  [.propose 0 ⟨.put, 1, ⟨[97]⟩⟩, .propose 1 ⟨.put, 2, ⟨[98]⟩⟩, .deliver 0, .deliver 1, .deliver 5,
    .deliver 5]

/-- The acknowledgement that committed the second slot comes again. -/
theorem redelivery_secondSlotFirst :
    ∃ r, (pair.run secondSlotFirst).network.replicas[0]? = some r ∧
      (pair.run secondSlotFirst).Spent History.pairConfig 0 (.acceptAck ⟨0, 1, 1⟩) ∧
      r.handle (.acceptAck ⟨0, 1, 1⟩) = (r, []) ∧
      (pair.run secondSlotFirst).network.receive (.toReplica 0 (.acceptAck ⟨0, 1, 1⟩)) =
        ((pair.run secondSlotFirst).network, none) := by
  obtain ⟨r, hr⟩ : ∃ r, (pair.run secondSlotFirst).network.replicas[0]? = some r :=
    Option.isSome_iff_exists.1 (by decide +kernel)
  have hhandled : ∃ d ∈ (pair.run secondSlotFirst).handled,
      d.replica.id = 0 ∧ d.message = .acceptAck ⟨0, 1, 1⟩ := by
    have hany : (pair.run secondSlotFirst).handled.any (fun d =>
        decide (d.replica.id = 0 ∧ d.message = .acceptAck ⟨0, 1, 1⟩)) = true := by
      decide +kernel
    simpa using hany
  have hspent : (pair.run secondSlotFirst).Spent History.pairConfig 0 (.acceptAck ⟨0, 1, 1⟩) :=
    .handled rfl hhandled
  exact ⟨r, hr, hspent, redelivery (reachable_pair.run secondSlotFirst) hr hspent⟩

end WitnessReplication.Chronicle
