import Regression.Description
import Regression.Program

namespace Regression

def programName : String := "start-test"

def usage : String :=
  "Usage: " ++ programName ++ " [OPTIONS] " ++ CommandLine.targetsShown ++ "\n\nOptions:\n" ++
    String.join (CommandLine.Opt.all.map fun o => "  " ++ o.shown ++ "\n")

/-- What the program leaves behind for who started it. -/
structure Report where
  console : String := ""
  diagnostics : String := ""
  exitCode : Nat

/-- What is answered to a command line that is not run. -/
def refuse (refusal : CommandLine.Refusal) : Report :=
  match refusal.message with
  | some message => { diagnostics := message ++ "\n", exitCode := refusal.exitCode }
  | none => { console := usage, exitCode := refusal.exitCode }

/-- Runs a session on the machine that a text describes. -/
def runOn (description : String) (settings : Settings) (targets : List Path) : Report :=
  match (Description.ofText? description).bind fun d => d.machine?.map (d, ·) with
  | none =>
    { diagnostics := "Error: standard input describes no machine\n"
      exitCode := ExitCode.failures.code }
  | some (d, machine) =>
    let (code, machine) := (Program.perform settings targets d.environment).run machine
    { console := machine.console, diagnostics := machine.diagnostics, exitCode := code.code }

end Regression

partial def readRest (input : IO.FS.Stream) (text : String) : IO String := do
  let line ← input.getLine
  if line.isEmpty then return text else readRest input (text ++ line)

/-- Tests the machine that standard input describes, as the command line says. -/
def main (args : List String) : IO UInt32 := do
  let report ← match Regression.CommandLine.read Regression.programName args with
    | .error refusal => pure (Regression.refuse refusal)
    | .ok (settings, targets) =>
      let description ← readRest (← IO.getStdin) ""
      pure (Regression.runOn description settings targets)
  IO.print report.console
  IO.eprint report.diagnostics
  return report.exitCode.toUInt32
