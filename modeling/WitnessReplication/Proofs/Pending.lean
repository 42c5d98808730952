import WitnessReplication.Proofs.Tracking

/-!
# Pending counts

A replica that does not lead counts, per key, the commands that it has witnessed and not retired.
Witnessing a command adds one to the count of its key, even if the same command is pending
already, and retiring a command takes one off. A command that has executed is retired as soon as
it is witnessed, so that it counts no more.
-/

namespace WitnessReplication

namespace Witness

/-- The number of commands on a key that a replica that does not lead has pending. -/
def pendingCount (w : Witness) (key : Key) : Nat := ((w.entry? key).map Entry.slot).getD 0

variable (w : Witness) (id : CommandId) (c : Command) (strong : Bool) (key : Key)

theorem pendingCount_record :
    (w.record id c strong).1.pendingCount key =
      w.pendingCount key + if c.key = key then 1 else 0 := by
  unfold record pendingCount entry?
  by_cases hkey : c.key = key
  · subst hkey
    cases he : w.unsynced[c.key]? with
    | none => simp [Entry.new, Entry.track]
    | some e => simp [Entry.track]
  · cases he : w.unsynced[c.key]? with
    | none => simp [Std.ExtTreeMap.getElem?_insert, hkey]
    | some e => simp [Std.ExtTreeMap.getElem?_insert, hkey]

theorem pendingCount_retire :
    (w.retire id c strong).pendingCount key =
      w.pendingCount key - if c.key = key then 1 else 0 := by
  unfold retire pendingCount entry?
  by_cases hkey : c.key = key
  · subst hkey
    cases he : w.unsynced[c.key]? with
    | none => simp [he]
    | some e =>
        simp only [slot_untrack]
        split
        · rename_i hzero
          simp [hzero]
        · simp [slot_untrack]
  · cases he : w.unsynced[c.key]? with
    | none => simp [hkey]
    | some e =>
        dsimp only
        split
        · simp [Std.ExtTreeMap.getElem?_erase, hkey]
        · simp [Std.ExtTreeMap.getElem?_insert, hkey]

end Witness

namespace Replica

/-- Witnessing a command counts it unless it has executed. -/
theorem pendingCount_recordWitness (r : Replica) (id : CommandId) (c : Command) (strong : Bool)
    (key : Key) :
    (r.recordWitness id c strong).1.witness.pendingCount key =
      r.witness.pendingCount key +
        if c.key = key ∧ r.values.contains id = false then 1 else 0 := by
  unfold recordWitness
  dsimp only
  cases hvalue : r.values.contains id with
  | true =>
      simp only [if_true, retire, Std.ExtTreeMap.getElem?_insert_self, Witness.pendingCount_retire,
        Witness.pendingCount_record]
      simp
  | false => simp [Witness.pendingCount_record]

end Replica

end WitnessReplication
