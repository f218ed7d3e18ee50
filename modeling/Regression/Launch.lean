import Regression.Script.Run

/-!
How a command comes to run: its program is found, the interpreters that first lines name are
followed, and at the end there is the shell with a script, or a fault.
-/

namespace Regression

open Text (Bytes)

namespace Launch

/-- The scripts of a machine by their text. -/
abbrev Library := List (Bytes × Script)

def shellPath : Path := ⟨"/bin/sh"⟩

/-- The places where programs are looked for when no variable says. -/
def usualPath : String := "/bin:/usr/bin"

/-- The regular file at a path, which its owner must be allowed to run. -/
def runnable (t : FileTree) (cwd : Location) (p : Path) : Except Fault Bytes := do
  match ← t.find cwd p with
  | (_, .file _ m bytes) => if m.ownerRuns then return bytes else throw .denied
  | _ => throw .denied

/-! ### First lines -/

/-- How far into a file the system looks for its interpreter. -/
def headLength : Nat := 256

/-- The head of a file; what a short file lacks are zeros. -/
def head (bytes : Bytes) : Bytes :=
  bytes.take headLength ++ List.replicate (headLength - bytes.length) 0

def isGap (b : UInt8) : Bool := b = 0x20 || b = 0x09

/-- Whether an interpreter's name ends here. -/
def endsName (b : UInt8) : Bool := isGap b || b = 0

def dropGapsAtEnd (line : Bytes) : Bytes := (line.reverse.dropWhile isGap).reverse

/-- The line after the two marks of a script. One that the head does not hold to its end will do
where its first word ends in the head. -/
def lineOfHead (rest : Bytes) : Option Bytes :=
  let line := rest.takeWhile fun b => b ≠ 10 && b ≠ 0
  if rest[line.length]? = some 10 then some (dropGapsAtEnd line)
  else if (rest.dropWhile isGap).any endsName then some (dropGapsAtEnd rest.dropLast)
  else none

/-- An interpreter, and what stands after it on the line: all of that is one word. -/
structure Interpreter where
  name : String
  word : Option String
  deriving DecidableEq, Repr

def interpreter? (bytes : Bytes) : Option Interpreter :=
  match head bytes with
  | 0x23 :: 0x21 :: rest => do
    let line := (← lineOfHead rest).dropWhile isGap
    if line.isEmpty then none
    let name := line.takeWhile (!endsName ·)
    let after := line.drop name.length
    let word := if after.head?.any isGap then
        some (Text.decodeLossy ((after.dropWhile isGap).takeWhile (· ≠ 0)))
      else none
    return ⟨Text.decodeLossy name, word⟩
  | _ => none

/-- What a program in the machine's own language begins with. -/
def nativeMark : UInt8 := 0x7F

def isNative (bytes : Bytes) : Bool := bytes.head? = some nativeMark

/-- The programs that each machine has. -/
def usualPrograms : List Path :=
  ["sh", "cat", "grep", "rm", "mkdir"].map fun name => ⟨"/bin/" ++ name⟩

def install (t : FileTree) (p : Path) : Except Fault FileTree := do
  let t ← t.makeDirectories [] (p.parent.getD ⟨"/"⟩)
  let t ← t.writeFile [] p [nativeMark]
  t.setMode [] p ⟨0o755⟩

def installUsual (t : FileTree) : Except Fault FileTree := usualPrograms.foldlM install t

/-! ### Loading -/

/-- A program of the machine itself, by the name it is called by and its arguments. -/
structure Loaded where
  name : String
  arguments : List String
  deriving DecidableEq, Repr

/-- How often one interpreter may be run by another. -/
def interpreterLimit : Nat := 5

/-- Follows the interpreters from a file on. Each is given its word, the file it runs, and the
arguments there were. -/
def follow (t : FileTree) (cwd : Location) :
    Nat → String → Bytes → List String → Except Fault Loaded
  | levels, name, bytes, arguments =>
    if isNative bytes then .ok ⟨name, arguments⟩
    else match interpreter? bytes with
      | none => .error .notRunnable
      | some i => do
        if i.name.isEmpty then throw .denied
        let program ← runnable t cwd ⟨i.name⟩
        match levels with
        | 0 => throw .linkLoop
        | levels + 1 => follow t cwd levels i.name program (i.word.toList ++ name :: arguments)

def load (t : FileTree) (cwd : Location) (p : Path) (arguments : List String) :
    Except Fault Loaded := do
  follow t cwd interpreterLimit p.text (← runnable t cwd p) arguments

/-- A file that the system cannot run is given to the shell. -/
def loadOrRead (t : FileTree) (cwd : Location) (p : Path) (arguments : List String) :
    Except Fault Loaded :=
  match load t cwd p arguments with
  | .error .notRunnable => .ok ⟨shellPath.text, p.text :: arguments⟩
  | r => r

/-- Searches the directories of a search path. That a file was refused is remembered while the
search goes on, as is the last fault. -/
def search (t : FileTree) (cwd : Location) (c : Command) :
    Bool → Fault → List String → Except Fault Loaded
  | refused, last, [] => .error (if refused then .denied else last)
  | refused, _, directory :: rest =>
    let p : Path := if directory.isEmpty then ⟨c.program⟩ else ⟨directory ++ "/" ++ c.program⟩
    match loadOrRead t cwd p c.arguments with
    | .ok found => .ok found
    | .error f =>
      match f with
      | .denied => search t cwd c true f rest
      | .notFound | .notDirectory => search t cwd c refused f rest
      | f => .error f

def searchPath (e : Environment) : List String :=
  (((e.get? "PATH").getD usualPath).toList.splitOn ':').map String.ofList

/-- What runs for a command: the file that a path names, or the first one found by its name. Only a
file found by its name is left to the shell. -/
def find (t : FileTree) (cwd : Location) (c : Command) : Except Fault Loaded :=
  if c.program.isEmpty then .error .notFound
  else if c.program.toList.contains '/' then load t cwd ⟨c.program⟩ c.arguments
  else search t cwd c false .notFound (searchPath c.environment)

/-! ### Running -/

def checkText (c : Command) : Except Fault Unit :=
  if Text.hasZero c.program || c.arguments.any Text.hasZero ||
      c.environment.bindings.any (fun b => Text.hasZero b.1 || Text.hasZero b.2) ||
      c.directory.any (fun d => Text.hasZero d.text) then
    .error .zeroInCommand
  else .ok ()

def enter (t : FileTree) (cwd : Location) : Option Path → Except Fault Location
  | none => .ok cwd
  | some p => do
    match ← t.find cwd p with
    | (l, .directory m) => if m.ownerRuns then return l else throw .denied
    | _ => throw .notDirectory

/-- What a text does when the shell runs it, and the line that it begins at. Zeros are not read. -/
def scriptOf (library : Library) (bytes : Bytes) : Nat × Script :=
  match library.lookup bytes with
  | some s => (2, s)
  | none => (1, Script.ofText (Text.decodeLossy (bytes.filter (· ≠ 0))))

/-- The letters that the shell knows after a dash. -/
def optionLetters : List Char := "efImnsxvVECabuicol".toList

/-- What follows the shell's own options, or a letter that is none of them. -/
def afterOptions : List String → Except Char (List String)
  | [] => .ok []
  | word :: rest =>
    match word.toList with
    | '-' :: letters =>
      if letters.isEmpty || letters = ['-'] then .ok rest
      else match letters.find? (!optionLetters.contains ·) with
        | some letter => .error letter
        | none => afterOptions rest
    | _ => .ok (word :: rest)

/-- The shell: its first argument that is no option names a script. -/
def runShell (library : Library) (p : Loaded) (c : Command) (cwd : Location) (files : FileTree) :
    Ended :=
  match afterOptions p.arguments with
  | .error letter =>
    let r : Running := { files, arguments := [] }
    (r.fail 2 (p.name ++ ": 0: Illegal option -" ++ String.singleton letter)).ended (.exited 2)
  | .ok [] => Running.ended { files, arguments := [] } (.exited 0)
  | .ok (name :: arguments) =>
    let r : Running := { files, arguments }
    match files.read cwd ⟨name⟩ with
    | .ok bytes =>
      let (line, script) := scriptOf library bytes
      script.runFrom c cwd name line r
    | .error f =>
      let words := match f with
        | .notFound | .notDirectory => "No such file"
        | f => f.words
      (r.fail 2 (p.name ++ ": 0: cannot open " ++ name ++ ": " ++ words)).ended (.exited 2)

/-- The tools of a machine: the directory is entered first, then the program is looked for. -/
def tools (library : Library) : Tools := fun _ c cwd files => do
  checkText c
  let l ← enter files cwd c.directory
  return runShell library (← find files l c) c l files

end Launch

end Regression
