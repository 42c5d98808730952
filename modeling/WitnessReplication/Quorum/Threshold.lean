/-!
# Quorum sizes

How many replicas of a cluster make a quorum.
-/

namespace WitnessReplication.Quorum

/-- A rule for the size of a quorum: more than half of the replicas, or at least three quarters
of them. -/
inductive Threshold where
  | majority
  | threeQuarters
  deriving DecidableEq, Repr, Inhabited

/-- The size of a quorum among `replicas` replicas. The arithmetic is that of natural numbers, with
which a machine word agrees as long as `3 * replicas + 3` fits into it. -/
def Threshold.size : Threshold → Nat → Nat
  | .majority, replicas => replicas / 2 + 1
  | .threeQuarters, replicas => (3 * replicas + 3) / 4

end WitnessReplication.Quorum
