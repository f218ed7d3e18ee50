import Regression.Machine
import Regression.Text.Blank

namespace Regression

namespace Logger

def isOpen (l : Logger) : Bool := l.handle.isSome

end Logger

def openLogFile (p : Path) (how : FileTree.Opening) : Job FileTree.Handle := do
  let m ← get
  match m.files.openFile m.directory p how .newFile with
  | .ok (files, handle) =>
    set { m with files }
    return handle
  | .error fault => throw (.logOpen p fault)

/-- Starts a fresh log file; what it held before is gone. -/
def createLog (p : Path) (echo : Bool) : Job Unit := do
  let handle ← openLogFile p .afresh
  modify fun m => { m with log := .file { path := p, handle := some handle, echo } }

/-- Closes the log file; messages then reach the console alone. -/
def stopLog : Effect Unit :=
  modify fun m =>
    match m.log with
    | .file l => { m with log := .file { l with handle := none } }
    | .memory _ => m

/-- Opens a closed log file again, to write on at its end. -/
def restartLog : Job Unit := do
  match (← get).log with
  | .file { path, handle := none, echo } =>
    let handle ← openLogFile path .append
    modify fun m => { m with log := .file { path, handle := some handle, echo } }
  | _ => return

/-- Writes one message, without the blanks at its end. -/
def note (message : String) : Job Unit := do
  let text := Text.trimEnd message
  modify fun m => { m with notes := text :: m.notes }
  match (← get).log with
  | .memory messages => modify fun m => { m with log := .memory (messages ++ [text]) }
  | .file l =>
    if l.echo then say text
    match l.handle with
    | none => return
    | some h =>
      let m ← get
      match m.files.write h (Text.encode (text ++ "\n")) with
      | .ok (files, h) => set { m with files, log := .file { l with handle := some h } }
      | .error fault => throw (.logWrite l.path fault)

def noteBlank : Job Unit := note ""

end Regression
