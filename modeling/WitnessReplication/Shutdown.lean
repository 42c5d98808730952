/-!
# Shutdown

A signal that is given once. Whoever waits for it goes on when it is given, and at once if it has
been given.
-/

namespace WitnessReplication

/-- Whether the signal has been given, and the numbers of those who wait for it. -/
structure Shutdown where
  triggered : Bool := false
  waiting : List Nat := []
  deriving DecidableEq, Repr

namespace Shutdown

/-- Someone waits; gives those who go on. -/
def wait (s : Shutdown) (number : Nat) : Shutdown × List Nat :=
  if s.triggered then (s, [number]) else ({ s with waiting := s.waiting ++ [number] }, [])

/-- Gives the signal; gives those who go on, in ascending order. -/
def trigger (s : Shutdown) : Shutdown × List Nat :=
  (⟨true, []⟩, s.waiting.mergeSort fun a b => decide (a ≤ b))

end Shutdown

end WitnessReplication
