import WitnessReplication.Scenario.Cluster
import WitnessReplication.Text.Lines

/-!
# Transcripts

The texts in which a run of a scenario is told: each instruction that was run is announced, and
what it printed follows. A text is printed with the end of a line after it, and may itself run over
several lines.
-/

namespace WitnessReplication.Scenario

/-- The text that announces an instruction. -/
def Instruction.announcement (i : Instruction) : String := "Executing command " ++ i.describe

/-- The texts of a run, given what each instruction that was run printed. -/
def transcript (s : Scenario) (printed : List (List String)) : List String :=
  (s.instructions.zip printed).flatMap fun entry => entry.1.announcement :: entry.2

/-- The lines in which printed texts appear. -/
def linesOf (printed : List String) : List String :=
  printed.flatMap fun text => Text.Lines.split (text ++ "\n")

end WitnessReplication.Scenario
