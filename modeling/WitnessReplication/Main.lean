import WitnessReplication.Json.Reader
import WitnessReplication.Scenario.Json
import WitnessReplication.Scenario.Transcript

/-!
# Command line

Runs the scenario in a file and prints its transcript. A run that fails says why on the error
output and ends with status 1.
-/

namespace WitnessReplication.CommandLine

/-- The scenario file that the arguments name. -/
def scenarioFile? : List String → Option String
  | ["-f", file] => some file
  | ["--file", file] => some file
  | _ => none

/-- Says why the program fails. -/
def fail (cause : String) : IO UInt32 := do
  IO.eprintln ("harness: " ++ cause)
  return 1

/-- Runs a scenario and prints its transcript. -/
def runScenario (s : Scenario) : IO UInt32 :=
  match s.run with
  | .error e => fail e.message
  | .ok (printed, failure) => do
    (s.transcript printed).forM fun text => IO.println text
    match failure with
    | some e => fail e.message
    | none => return 0

/-- Runs the scenario in a file. -/
def runFile (file : String) : IO UInt32 := do
  match ← (IO.FS.readFile file).toBaseIO with
  | .error e => fail ("could not read scenario: " ++ toString e)
  | .ok text =>
    match (Json.read? text).bind Scenario.ofJson? with
    | none => fail "could not parse scenario"
    | some s => runScenario s

end WitnessReplication.CommandLine

open WitnessReplication in
/-- Runs the scenario file that the arguments name. -/
def main (args : List String) : IO UInt32 :=
  match CommandLine.scenarioFile? args with
  | some file => CommandLine.runFile file
  | none => do
    IO.eprintln "USAGE: harness --file <file>"
    return 1
