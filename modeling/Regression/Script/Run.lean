import Regression.Script
import Regression.Script.Utility
import Regression.Text.Blank

namespace Regression

open Text (Bytes)

namespace Script

def isTestVariable (name : List Char) : Bool :=
  ("CHPL_".toList.isPrefixOf name &&
    (name.drop 5).all fun c => ('A' ≤ c && c ≤ 'Z') || ('0' ≤ c && c ≤ '9') || c = '_') ||
  ["COMPOPTS", "EXECOPTS", "LAUNCHCMD", "NUMLOCALES", "LANG", "LC_ALL",
    "LC_COLLATE"].contains (String.ofList name)

/-- A name that the shell takes for a variable's. It passes no others on. -/
def isVariableName (name : String) : Bool :=
  match name.toList with
  | [] => false
  | c :: cs => (c.isAlpha || c = '_') && cs.all fun c => c.isAlphanum || c = '_'

/-- A line that binds a variable which concerns tests. -/
def bindsTestVariable (line : String) : Bool :=
  (Text.cutAt '=' line.toList).any fun (name, _) => isTestVariable name

/-- The lines of an environment, in byte order. A value may bring lines of its own. -/
def bindingLines (e : Environment) : List String :=
  let lines := (e.bindings.filter (isVariableName ·.1)).flatMap fun (name, value) =>
    ((name ++ "=" ++ value).toList.splitOn '\n').map String.ofList
  (lines.filter bindsTestVariable).mergeSort fun a b => a ≤ b

def argumentLines (arguments : List String) : Bytes :=
  Text.encode (String.join (arguments.map fun a => "arg:" ++ a ++ "\n"))

def sourcePattern : String := "*.chpl"

/-- Names that the shell finds by their ending, where it can list them; those that begin with a dot
are hidden. The pattern itself stays where there is none. -/
def sources (t : FileTree) (cwd : Location) : List String :=
  let names : List String := match t.list cwd ⟨"."⟩ with
    | .ok entries => entries.map fun e => e.1
    | .error _ => []
  match names.filter fun n => Text.endsWith n ".chpl" && !Text.startsWith n "." with
  | [] => [sourcePattern]
  | found => found

/-- Prints the line about one test, if it is a file. A file that cannot be read does not fail. -/
def reportTest (cwd : Location) (r : Running) (name : String) : Running :=
  if r.files.isFile cwd ⟨name⟩ then
    let r := Utility.search r cwd "fail" name
    let outcome := if r.last = 0 then "[Error" else "[Success"
    r.print (outcome ++ " matching program output for " ++ name ++ "]\n")
  else r

/-- The working directory as the shell keeps it: the variable's spelling where that is right. -/
def workingDirectory (t : FileTree) (cwd : Location) (e : Environment) : String :=
  match e.get? "PWD" with
  | some p =>
    if (Path.mk p).isAbsolute && (t.find cwd ⟨p⟩).toOption.any (·.1 == cwd) then p
    else cwd.path.text
  | none => cwd.path.text

/-- Variables that the shell sets itself, whatever it is started with. -/
def ownVariables : List (String × String) := [("IFS", " \t\n"), ("OPTIND", "1")]

/-- Variables that the shell has where it is started without them. -/
def usualVariables : List (String × String) := [("PS1", "$ "), ("PS2", "> "), ("PS4", "+ ")]

def valueOf (t : FileTree) (cwd : Location) (e : Environment) (name : String) : Option String :=
  if name = "PWD" then some (workingDirectory t cwd e)
  else (ownVariables.lookup name).or ((e.get? name).or (usualVariables.lookup name))

/-- Writes a file by redirection; `line` tells where the script stands when that fails. -/
def redirect (r : Running) (cwd : Location) (program : String) (line : Nat) (file : String)
    (bytes : Bytes) : Running :=
  match r.files.writeFile cwd ⟨file⟩ bytes with
  | .ok files => { r with files, last := 0 }
  | .error f =>
    let words := match f with
      | .notFound | .notDirectory => "Directory nonexistent"
      | f => f.words
    r.fail 2 (program ++ ": " ++ toString line ++ ": cannot create " ++ file ++ ": " ++ words)

def signalEnds (signal : Nat) : Bool :=
  signal != 0 && !([17, 18, 23, 28].contains signal)

/-- The number that a text spells as the shell reads it: blanks around it do not count. -/
def number? (text : String) : Option Nat :=
  match Text.readInt 0 2147483647 (Text.trim text) with
  | .ok n => some n.toNat
  | .error _ => none

/-- The exit code that a text spells, or 2 with a complaint. -/
def exitText (r : Running) (program : String) (line : Nat) (text : String) : Running × Status :=
  match number? text with
  | some n => (r, .exited (n % 256))
  | none =>
    (r.fail 2 (program ++ ": " ++ toString line ++ ": exit: Illegal number: " ++ text), .exited 2)

/-- Output that a shell takes in: its last newlines do not count. -/
def taken (bytes : Bytes) : String :=
  Text.decodeLossy (bytes.reverse.dropWhile (· = 10)).reverse

def value (r : Running) (c : Command) (cwd : Location) (name : String) : Option String :=
  valueOf r.files cwd c.environment name

/-- The variables that the shell passes on, with the directory it works in. -/
def exported (r : Running) (c : Command) (cwd : Location) : Environment :=
  c.environment.set "PWD" (workingDirectory r.files cwd c.environment)

/-- One instruction, which begins at a line of the script; a status ends the script. -/
def step (c : Command) (cwd : Location) (program : String) (line : Nat) (r : Running) :
    Instruction → Running × Option Status
  | .print s text => (r.emit s (Text.encode text), none)
  | .printBytes bytes => (r.emit .output bytes, none)
  | .arguments => (r.emit .output (argumentLines r.arguments), none)
  | .argumentsTo file => (redirect r cwd program line file (argumentLines r.arguments), none)
  | .bindings => (r.print (String.join ((bindingLines (exported r c cwd)).map (· ++ "\n"))), none)
  | .binding name => (r.print (name ++ "=" ++ (value r c cwd name).getD "@unset@" ++ "\n"), none)
  | .showArgument => (Utility.display r cwd r.argument, none)
  | .show file => (Utility.display r cwd file, none)
  | .directory => (r.print ("cwd:" ++ cwd.path.text ++ "\n"), none)
  | .explode =>
    let r := Utility.search r cwd "explode" r.argument
    if r.last = 0 then (r, some (.exited 1)) else (r.done, none)
  | .tests =>
    let one := (c.environment.get? "CHPL_ONETEST").getD ""
    let names := if one.isEmpty then sources r.files cwd else [one]
    ((names.foldl (reportTest cwd) { r with arguments := names }).done, none)
  | .exitFrom file =>
    if r.files.isFile cwd ⟨file⟩ then
      let shown := Utility.display { r with written := [] } cwd file
      let (complaints, output) := shown.written.partition (·.1 = .diagnostics)
      let (r, s) := exitText { r with written := complaints ++ r.written } program line
        (taken (output.flatMap (·.2)))
      (r, some s)
    else (r.done, none)
  | .exit code => (r, some (.exited (code % 256)))
  | .leave _ => (r, some (.exited r.last))
  | .kill signal => if signalEnds signal then (r, some (.killed signal)) else (r.done, none)
  | .write file text => (redirect r cwd program line file (Text.encode text), none)
  | .remove file => (Utility.remove r cwd file, none)
  | .removeNamed name => (Utility.remove r cwd ((value r c cwd name).getD ""), none)
  | .makeNamed name => (Utility.make r cwd ((value r c cwd name).getD ""), none)
  | .comment _ => (r, none)
  | .unknown word _ =>
    (r.fail 127 (program ++ ": " ++ toString line ++ ": " ++ word ++ ": not found"), none)

/-- The lines that an instruction takes up in its script. -/
def linesOf (i : Instruction) : Nat := (instructionText i).toList.count '\n' + 1

/-- Runs a script, called by the name `program`, from one of its lines on. -/
def runFrom (s : Script) (c : Command) (cwd : Location) (program : String) (line : Nat)
    (r : Running) : Ended :=
  match s with
  | [] => r.ended (.exited r.last)
  | i :: rest =>
    match step c cwd program line r i with
    | (r, some status) => r.ended status
    | (r, none) => runFrom rest c cwd program (line + linesOf i) r

end Script

end Regression
