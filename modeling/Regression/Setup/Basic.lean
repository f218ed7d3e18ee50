import Regression.Graphs
import Regression.Layout
import Regression.LogFiles
import Regression.Toolchain

namespace Regression

/-- Drops variables that change what the toolchain does, and fixes the language, so that sorting in
helper scripts does not depend on where they run. -/
def prepareEnvironment (e : Environment) : Environment :=
  let e := (e.remove "CHPL_DEVELOPER").remove "CHPL_EXE_NAME"
  let e := if e.contains "CHPL_UNWIND" then e.set "CHPL_RT_UNWIND" "0" else e
  ((e.set "LC_COLLATE" "C").set "LANG" "en_US.UTF-8").remove "LC_ALL"

structure GraphPlan where
  perfDirectory : Path
  description : String
  testName : String
  deriving DecidableEq, Repr

/-- The performance work of a session. -/
structure PerfPlan where
  graphs : Option GraphPlan := none
  compiler : Option CompilerPerf := none
  deriving DecidableEq, Repr

/-- What setup starts from. -/
structure Setup where
  settings : Settings
  layout : Layout
  toolchain : Toolchain
  files : LogFiles
  cwd : Path

/-- A job that fills in the context of the tools. -/
abbrev Arranging := StateT Context Job

namespace Setup

def provide (name value : String) : Arranging Unit := modify fun c => c.set name value

def bound? (name : String) : Arranging (Option String) := return (← get).get? name

def filled (name : String) : Arranging Bool :=
  return ((← get).environment.getFilled? name).isSome

def git (cwd : Path) (arguments : List String) : Arranging (Option String) := do
  let c ← get
  let output ← attempt (Command.captureQuiet
    { program := "git", arguments, environment := c.scope none, directory := some cwd })
  return output.map Text.trim

def firstLineOf (program : String) (arguments : List String) : Arranging (Option String) := do
  let c ← get
  let output ← attempt (Command.captureQuiet
    { program, arguments, environment := c.scope none })
  return output.bind fun o => (Text.lines o).head?

/-- Whether a path lies below another, links followed where both exist. -/
def within (m : Machine) (p root : Path) : Bool :=
  match m.files.canonical m.directory p, m.files.canonical m.directory root with
  | .ok l, .ok r => r.isSuffixOf l
  | _, _ => p.startsWith root

end Setup

end Regression
