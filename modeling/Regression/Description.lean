import Regression.Json.Reading
import Regression.Launch
import Regression.Machine
import Regression.Text.Numeral

namespace Regression

namespace Json

def member? (name : String) : Json → Option Json
  | .object members => (members.find? fun m => m.1 == some name).map (·.2)
  | _ => none

def text? : Json → Option String
  | .string text => text
  | _ => none

def items? : Json → Option (List Json)
  | .array items => some items
  | _ => none

def number? : Json → Option Nat
  | .number spelling => Text.readCount (String.ofList spelling)
  | _ => none

/-- The text of a member; a member that is not there has none. -/
def textOf? (name : String) (json : Json) : Option String :=
  (json.member? name).bind text?

end Json

/-- An instruction by its words. -/
def Instruction.ofWords? : List String → Option Instruction
  | ["print", text] => some (.print .output text)
  | ["complain", text] => some (.print .diagnostics text)
  | ["arguments"] => some .arguments
  | ["arguments", file] => some (.argumentsTo file)
  | ["bindings"] => some .bindings
  | ["binding", name] => some (.binding name)
  | ["show"] => some .showArgument
  | ["show", file] => some (.show file)
  | ["directory"] => some .directory
  | ["explode"] => some .explode
  | ["tests"] => some .tests
  | ["exit-from", file] => some (.exitFrom file)
  | ["exit", code] => (Text.readCount code).map .exit
  | ["kill", signal] => (Text.readCount signal).map .kill
  | ["write", file, text] => some (.write file text)
  | ["remove", file] => some (.remove file)
  | _ => none

def Script.ofJson? (json : Json) : Option Script := do
  (← json.items?).mapM fun line => do
    Instruction.ofWords? (← (← line.items?).mapM Json.text?)

/-- A machine as a text describes it, and what a program on it starts with. -/
structure Description where
  files : FileTree := {}
  library : Launch.Library := []
  environment : Environment := .empty
  directory : Path := ⟨"/"⟩
  clock : Clock := { year := 1970, month := 1, day := 1, hour := 0, minute := 0, second := 0 }

namespace Description

/-- What is put at a path. -/
inductive Contents where
  | text (text : String)
  | script (script : Script)
  | link (target : String)
  | directory

def contentsOf? (json : Json) : Option Contents :=
  match json.member? "script" with
  | some lines => (Script.ofJson? lines).map .script
  | none =>
    match json.textOf? "text", json.textOf? "link" with
    | some text, _ => some (.text text)
    | none, some target => some (.link target)
    | none, none => some .directory

def put (t : FileTree) (p : Path) : Contents → Except Fault FileTree
  | .text text => t.writeFile [] p (Text.encode text)
  | .script script => do
    let t ← t.writeFile [] p (Text.encode script.text)
    t.setMode [] p .newDirectory
  | .link target => t.makeLink [] p target
  | .directory => t.makeDirectories [] p

/-- Adds what a member of the list of files says, the directories above it first. -/
def addFile? (d : Description) (json : Json) : Option Description := do
  let p := Path.mk (← json.textOf? "path")
  let contents ← contentsOf? json
  let files ← (d.files.makeDirectories [] (p.parent.getD ⟨"/"⟩)).toOption
  let files ← (put files p contents).toOption
  let library := match contents with
    | .script script => (Text.encode script.text, script) :: d.library
    | _ => d.library
  return { d with files, library }

def clockOf? (json : Json) : Option Clock := do
  match ← (← json.items?).mapM Json.number? with
  | [year, month, day, hour, minute, second] =>
    return { year, month, day, hour, minute, second }
  | _ => none

def bindingOf? (member : Option String × Json) : Option (String × String) := do
  return (← member.1, ← member.2.text?)

def environmentOf? : Json → Option Environment
  | .object members => (members.mapM bindingOf?).map Environment.ofList
  | _ => none

/-- Reads a description; members that are not there have their defaults. -/
def ofJson? (json : Json) : Option Description := do
  let environment ← match json.member? "environment" with
    | some bindings => environmentOf? bindings
    | none => some .empty
  let clock ← match json.member? "clock" with
    | some numbers => clockOf? numbers
    | none => some ({} : Description).clock
  let files := ((json.member? "files").bind Json.items?).getD []
  let d : Description :=
    { files := ← (Launch.installUsual {}).toOption
      environment, clock, directory := ⟨(json.textOf? "directory").getD "/"⟩ }
  files.foldlM addFile? d

def ofText? (text : String) : Option Description :=
  (Json.ofText? text).bind ofJson?

/-- The described machine, where its directory exists. -/
def machine? (d : Description) : Option Machine := do
  let directory ← (d.files.canonical [] d.directory).toOption
  return {
    files := d.files
    directory
    tools := Launch.tools d.library
    clock := d.clock
    process := 1
    scratchRoot := ⟨(d.environment.getFilled? "TMPDIR").getD "/tmp"⟩ }

end Description

end Regression
