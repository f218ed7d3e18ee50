import Regression.Setup.Header
import Regression.Setup.Performance
import Regression.Setup.Programs

namespace Regression.Setup

/-- All of setup: the variables of the tools, the head of the log and the performance plan. -/
def arrange (s : Setup) : Arranging PerfPlan := do
  let execopts ← s.optionVariables
  s.general
  s.performanceFlags
  s.executables execopts
  s.performanceDirectories

def run (s : Setup) (c : Context) : Job (Context × PerfPlan) := do
  let (plan, c) ← s.arrange.run c
  return (c, plan)

/-- Makes tests from the language specification when the whole default tree is tested. -/
def specTests (s : Setup) (c : Context) : Job Unit := do
  if s.layout.specTests && !s.settings.cleanOnly && !s.settings.genGraphs &&
      (s.cwd.same s.layout.home || s.cwd.same s.layout.testDirectory) then
    note ("[Generating tests from the Chapel Spec in " ++ s.layout.home.text ++ "/spec]")
    let make : Command :=
      { program := "make", arguments := ["spectests"], environment := c.scope none
        directory := some s.layout.home }
    let code ← match ← outcome make.follow with
      | .ok code => pure code
      | .error (.command _ code _) => pure code
      | .error e => throw e
    if code ≠ 0 then
      throw (.fatal (.specTests s.layout.home))

/-- Logs what the toolchain says of itself. -/
def toolchainReport (c : Context) : Job Unit := do
  noteBlank
  note "### Chapel Environment ###"
  let report ← attempt (Command.capture
    { program := (c.utilDirectory / "printchplenv").text
      arguments := ["--all", "--no-tidy"]
      environment := c.scope none })
  if let some output := report then
    note output
  note "##########################"

end Regression.Setup
