import Std.Data.ExtTreeMap
import Std.Data.ExtTreeSet
import WitnessReplication.Text.Record

/-!
# Identities

Replicas, clients, log slots and leader epochs are numbered. A command is named by the client
that issued it and by its position among that client's commands.

Command ids, and pairs of a client and a key, are ordered by client first, so that they can serve
as the keys of a finite map.
-/

namespace WitnessReplication

/-- The number of a replica; a cluster of `n` replicas holds those below `n`. -/
abbrev ReplicaId := Nat

/-- The number of a client. -/
abbrev ClientId := Nat

/-- The position of a command among its client's commands. -/
abbrev SeqNum := Nat

/-- A position in the replicated log. -/
abbrev Slot := Nat

/-- A leader's epoch. -/
abbrev Ballot := Nat

/-- A key of the replicated store. -/
abbrev Key := Int

/-- The name of a command: its client and its position among that client's commands. -/
structure CommandId where
  client : ClientId
  seq : SeqNum
  deriving DecidableEq, Repr, Inhabited

/-- Command ids are ordered by client, and by position for one client. -/
instance : Ord CommandId :=
  ⟨compareLex (compareOn CommandId.client) (compareOn CommandId.seq)⟩

instance : Std.TransOrd CommandId :=
  inferInstanceAs (Std.TransCmp (compareLex (compareOn CommandId.client) (compareOn CommandId.seq)))

instance : Std.LawfulEqOrd CommandId where
  eq_of_compare {a b} h := by
    change (compare a.client b.client).then (compare a.seq b.seq) = .eq at h
    rw [Ordering.then_eq_eq, Nat.compare_eq_eq, Nat.compare_eq_eq] at h
    cases a; cases b
    simp_all

/-- The text of a command id. -/
def CommandId.describe (id : CommandId) : String :=
  Text.Record.record "CommandId" [("client_id", toString id.client), ("seq_num", toString id.seq)]

/-- Command ids in ascending order. -/
def CommandId.sort (ids : List CommandId) : List CommandId :=
  ids.mergeSort fun a b => (compare a b).isLE

/-- A key as seen by one client. -/
structure ClientKey where
  client : ClientId
  key : Key
  deriving DecidableEq, Repr, Inhabited

/-- Pairs of a client and a key are ordered by client, and by key for one client. -/
instance : Ord ClientKey :=
  ⟨compareLex (compareOn ClientKey.client) (compareOn ClientKey.key)⟩

instance : Std.TransOrd ClientKey :=
  inferInstanceAs (Std.TransCmp (compareLex (compareOn ClientKey.client) (compareOn ClientKey.key)))

instance : Std.LawfulEqOrd ClientKey where
  eq_of_compare {a b} h := by
    change (compare a.client b.client).then (compare a.key b.key) = .eq at h
    rw [Ordering.then_eq_eq, Nat.compare_eq_eq, Std.compare_eq_iff_eq] at h
    cases a; cases b
    simp_all

end WitnessReplication
