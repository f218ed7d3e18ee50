import Regression.Walk

namespace Regression

namespace Runner

def cleanerName : String := "sub_clean"

/-- The environment of a tool that works in a directory. -/
def environmentIn (e : Environment) (directory : Path) : Environment :=
  e.set "PWD" directory.text

/-- A directory's own runner where it has one that can be run, else the shared one. -/
def resolve (m : Machine) (c : Context) (directory : Path) : Path :=
  let own := directory / Walk.runnerName
  if m.isExecutable own then own else c.testUtil Walk.runnerName

def nameOf (file : Path) : String := file.fileName.getD ""

def command (c : Context) (runner directory : Path) (test : Option String) : Command :=
  { program := runner.text
    arguments := [c.compiler.text]
    environment := environmentIn (c.scope test) directory
    directory := some directory }

/-- Starts a runner and answers its exit code. One that does not start ends the session. -/
def launch (c : Context) (runner directory : Path) (test : Option String) : Job Int := do
  note ("[Starting " ++ runner.text ++ " " ++ (← get).clock.startStamp ++ "]")
  match ← outcome (command c runner directory test).follow with
  | .ok code => return code
  | .error (.command _ _ output) => throw (.fatal (.noRunner runner (some output)))
  | .error e => throw e

/-- Runs the tests of a directory, or one file of it, and answers the runner's exit code. A runner
that cannot be run ends the session. -/
def invoke (c : Context) (progress : Bool) (directory : Path) (file : Option Path) : Job Int := do
  noteBlank
  if let some f := file then
    note ("[Working on file " ++ c.displayPath f ++ "]")
  let runner := resolve (← get) c directory
  if !(← get).isExecutable runner then
    throw (.fatal (.noRunner runner none))
  if let some f := file then
    if progress then
      complain ("Testing " ++ f.text ++ " ... ")
  launch c runner directory (file.map nameOf)

def cleanCommand (c : Context) (directory : Path) (test : Option String) : Command :=
  { program := (c.testUtil cleanerName).text
    arguments := test.toList
    environment := environmentIn (c.scope none) directory
    directory := some directory }

/-- Removes what builds left in a directory, for all its tests or for one. A cleaner that fails is
only reported. -/
def clean (c : Context) (directory : Path) (test : Option String) : Job Unit := do
  if let some t := test then
    note ("[Starting " ++ (c.testUtil cleanerName).text ++ " " ++ t ++ " " ++
      (← get).clock.startStamp ++ "]")
  match ← attempt (cleanCommand c directory test).capture with
  | some output => note output
  | none => note "[Error: sub_clean error]"

end Runner

end Regression
