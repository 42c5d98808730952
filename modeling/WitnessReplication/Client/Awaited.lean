import WitnessReplication.Client

/-!
# Awaited completions

Whoever issues a command waits for its completion, or stops waiting. Completions become visible
only where they are awaited, those of one moment in the order in which their commands were
issued.
-/

namespace WitnessReplication.Client

/-- The commands whose completions are awaited, in the order in which they were issued. -/
structure Awaited where
  ids : List CommandId := []
  deriving DecidableEq, Repr

namespace Awaited

/-- Waits for a further command. -/
def issue (a : Awaited) (id : CommandId) : Awaited := ⟨a.ids ++ [id]⟩

/-- Waits for nothing any more. -/
def abandon (_ : Awaited) : Awaited := ⟨[]⟩

/-- Takes the awaited ones out of some completions, in the order of their commands. -/
def collect (a : Awaited) (completions : List Completion) : Awaited × List Completion :=
  (⟨a.ids.filter fun id => completions.all fun c => c.id ≠ id⟩,
    a.ids.filterMap fun id => completions.find? fun c => c.id = id)

end Awaited

end WitnessReplication.Client
