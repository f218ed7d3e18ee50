import Regression.Command.Run
import Regression.Context
import Regression.Text.Lines

namespace Regression

/-- Which marker file makes a directory be skipped. -/
inductive SkipReason where
  /-- The file `<name>.notest` beside the directory. -/
  | notestSibling
  /-- The file `<name>.skipif` beside the directory, whose condition holds. -/
  | skipifSibling
  /-- The file `SKIPIF` inside, whose condition holds. -/
  | skipif
  /-- The file `NOTEST` inside. -/
  | notest
  deriving DecidableEq, Repr

def SkipReason.text : SkipReason → String
  | notestSibling => "notest-sibling"
  | skipifSibling => "skipif-sibling"
  | skipif => "SKIPIF"
  | notest => "NOTEST-marker"

inductive SkipDirective where
  | test
  /-- The directory and all below it are left out. -/
  | prune (reason : SkipReason)
  /-- The directory's own tests are left out; what lies below it is still visited. -/
  | skipSelf (reason : SkipReason)
  deriving DecidableEq, Repr

namespace SkipDirective

def reason? : SkipDirective → Option SkipReason
  | test => none
  | prune r => some r
  | skipSelf r => some r

def prunesChildren : SkipDirective → Bool
  | prune _ => true
  | _ => false

def skipsSelf (d : SkipDirective) : Bool := d != test

end SkipDirective

/-- What the markers of a directory say, with the file that fired, the warnings for the log and the
remarks for the console. -/
structure Verdict where
  directive : SkipDirective := .test
  marker : Option Path := none
  warnings : List String := []
  info : List String := []
  deriving DecidableEq, Repr

/-- What a condition printed: remarks, and on the last line whether to skip. -/
structure ConditionOutput where
  skip : Bool
  info : List String
  deriving DecidableEq, Repr

namespace ConditionOutput

def saysSkip (line : String) : Bool :=
  let word := Text.trim line
  word == "1" || word == "True"

def parse (output : String) : ConditionOutput :=
  let lines := Text.lines (Text.trim output)
  { skip := (lines.getLast?.map saysSkip).getD false, info := lines.dropLast }

end ConditionOutput

namespace Skip

def helper (c : Context) : Path := c.testUtil "testEnv"

/-- Asks the helper, inside the directory, about a condition script. -/
def checkCondition (c : Context) (directory script : Path) : Job ConditionOutput := do
  if !(← get).isExecutable (helper c) then
    throw (.configuration (.conditionHelper (helper c)))
  let output ← Command.capture
    { program := (helper c).text
      arguments := [script.text]
      environment := c.scope none
      directory := some directory }
  return .parse output

/-- The file `<name>.<ending>` beside a directory that has a name and a parent. -/
def sibling? (directory : Path) (ending : String) : Option Path := do
  let name ← directory.fileName
  let parent ← directory.parent
  return parent / (name ++ "." ++ ending)

/-- The condition in a marker that is a file: whether it holds. A condition that fails is only
warned about. -/
def condition (c : Context) (directory : Path) (marker : Option Path) (warning : String)
    (v : Verdict) : Effect (Option Path × Verdict) := do
  match marker with
  | none => return (none, v)
  | some script =>
    if !(← get).isFile script then return (none, v)
    match ← attempt (checkCondition c directory script) with
    | some output =>
      return (if output.skip then some script else none, { v with info := v.info ++ output.info })
    | none => return (none, { v with warnings := v.warnings ++ [warning] })

/-- Decides about a directory. The markers beside it come first, and the first that fires wins. -/
def evaluate (c : Context) (directory : Path) : Effect Verdict := do
  let notestSibling := sibling? directory "notest"
  if notestSibling.any (← get).isFile then
    return { directive := .prune .notestSibling, marker := notestSibling }
  let (fired, v) ←
    condition c directory (sibling? directory "skipif") "[Warning: .skipif error.]" {}
  if fired.isSome then
    return { v with directive := .prune .skipifSibling, marker := fired }
  let (fired, v) ← condition c directory (some (directory / "SKIPIF")) "[Warning: SKIPIF error.]" v
  if fired.isSome then
    return { v with directive := .skipSelf .skipif, marker := fired }
  let notest := directory / "NOTEST"
  if (← get).isFile notest then
    return { v with directive := .skipSelf .notest, marker := some notest }
  return v

end Skip

end Regression
