import WitnessReplication.Client
import WitnessReplication.Command.Json

/-!
# Client statistics as JSON

How the statistics of a client are written as JSON and read back.
-/

namespace WitnessReplication.Client.Stats

open Json (asRecord demand)

/-- The fields of the statistics. -/
def fields : List Json.Field :=
  [⟨"fast", .required⟩, ⟨"slow", .required⟩, ⟨"weak", .required⟩, ⟨"escalated", .required⟩]

/-- Statistics are written as a record. -/
def toJson (s : Stats) : Json :=
  .ofFields fields [.ofNat s.fast, .ofNat s.slow, .ofNat s.weak, .ofNat s.escalated]

/-- Reads statistics. -/
def ofJson? : Json → Option Stats :=
  asRecord fields fun
    | [fast, slow, weak, escalated] => do
      return ⟨← demand Json.asNat64 fast, ← demand Json.asNat64 slow, ← demand Json.asNat64 weak,
        ← demand Json.asNat64 escalated⟩
    | _ => none

end WitnessReplication.Client.Stats
