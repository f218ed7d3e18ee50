import Regression.FileTree.Edit
import Regression.Script.Running
import Regression.Text.Lines
import Regression.Text.Quoted

/-!
The small programs that scripts call: they show, search, remove and make files, and complain about
what they cannot do.
-/

namespace Regression

open Text (Bytes)

namespace Utility

/-- A dash stands for the standard input, which is empty. -/
def inputName : String := "-"

def contents (r : Running) (cwd : Location) (file : String) : Except Fault Bytes :=
  if file = inputName then .ok [] else r.files.read cwd ⟨file⟩

/-- Prints a file. -/
def display (r : Running) (cwd : Location) (file : String) : Running :=
  match contents r cwd file with
  | .ok bytes => r.emit .output bytes
  | .error f => r.fail 1 ("/bin/cat: " ++ Text.plainName file ++ ": " ++ f.words)

/-- Looks for a word in a file. The status is 0 where it is found, 1 where it is not, and 2 after a
complaint. -/
def search (r : Running) (cwd : Location) (word file : String) : Running :=
  match contents r cwd file with
  | .ok bytes =>
    { r with last := if Text.contains (Text.decodeLossy bytes) word then 0 else 1 }
  | .error f => r.fail 2 ("/bin/grep: " ++ file ++ ": " ++ f.words)

/-! ### Removing -/

/-- What stays although it was to be removed, and why. -/
abbrev Remains := List (String × Fault)

/-- The name under which something in a directory is complained about. -/
def within (directory name : String) : String :=
  if Text.endsWith directory "/" then directory ++ name else directory ++ "/" ++ name

/-- Takes away one entry from the directory that holds it. -/
def takeAway (t : FileTree) (l : Location) (shown : String) : FileTree × Remains :=
  match t.checkHolder l with
  | .ok () => (t.prune l, [])
  | .error f => (t, [(shown, f)])

/-- Takes away all that lies below a place, the innermost first. A directory of which something
stays is not complained about itself. -/
def clearBelow : Nat → FileTree → Location → String → FileTree × Remains
  | 0, t, _, _ => (t, [])
  | levels + 1, t, l, shown =>
    let names := (t.children l).map (·.1)
    match t.node? l with
    | some (.directory m) =>
      if names.isEmpty then (t, [])
      else if !m.ownerReads then (t, [(shown, .denied)])
      else if !m.ownerRuns then (t, names.map fun name => (within shown name, .denied))
      else names.foldl
        (fun (t, remains) name =>
          let (t, more) := clearBelow levels t (name :: l) (within shown name)
          let (t, more) :=
            if more.isEmpty then takeAway t (name :: l) (within shown name) else (t, more)
          (t, remains ++ more)) (t, [])
    | _ => (t, [])

def lastName (file : String) : String :=
  String.ofList ((FileTree.dropSeparators ⟨file⟩).text.toList.reverse.takeWhile (· ≠ '/')).reverse

/-- Separators at the end of a name, of which one is shown. -/
def withOneSeparator (file : String) : String :=
  let short := (FileTree.dropSeparators ⟨file⟩).text
  if Text.endsWith file "/" && !Text.endsWith short "/" then short ++ "/" else short

/-- The link that a name with a separator at its end goes through. -/
def linkBefore (t : FileTree) (cwd : Location) (file : String) : Option Location :=
  match t.findItself cwd (FileTree.dropSeparators ⟨file⟩) with
  | .ok (l, .link _) => if Text.endsWith file "/" then some l else none
  | _ => none

/-- Takes away an entry after all below it. A link that stands for a directory stays, and the
directory with it. -/
def clearOut (t : FileTree) (cwd l : Location) (file : String) : FileTree × Remains :=
  let shown := withOneSeparator file
  let (t, remains) := clearBelow FileTree.pathLimit t l shown
  if !remains.isEmpty then (t, remains)
  else match linkBefore t cwd file with
    | none => takeAway t l shown
    | some link =>
      match t.checkHolder link with
      | .ok () => (t, [])
      | .error f => (t, [(shown, f)])

/-- Removes without asking. That nothing is there is no failure; a directory is not removed by the
name of itself or of its parent, and the root never. -/
def remove (r : Running) (cwd : Location) (file : String) : Running :=
  match r.files.findItself cwd ⟨file⟩ with
  | .error f =>
    if f = .notFound || f = .notDirectory || (linkBefore r.files cwd file).isSome then r.done
    else r.fail 1 ("/bin/rm: cannot remove " ++ Text.quotedName file ++ ": " ++ f.words)
  | .ok (l, n) =>
    if n.isDirectory && [".", ".."].contains (lastName file) then
      r.fail 1 ("/bin/rm: refusing to remove '.' or '..' directory: skipping " ++
        Text.quotedName (withOneSeparator file))
    else if l.isEmpty then
      r.fail 1 ("/bin/rm: it is dangerous to operate recursively on '/'\n" ++
        "/bin/rm: use --no-preserve-root to override this failsafe")
    else
      let (files, remains) := clearOut r.files cwd l file
      remains.foldl
        (fun r (shown, f) =>
          r.fail 1 ("/bin/rm: cannot remove " ++ Text.quotedName shown ++ ": " ++ f.words))
        { r with files, last := 0 }

/-! ### Making directories -/

/-- The beginnings of a path that end with a name and are followed by another one, each with that
name. `seen` is what was read before, backwards, and `name` the part of it that belongs to the
name. -/
def beginnings (seen name : List Char) : List Char → List (String × String)
  | [] => []
  | c :: cs =>
    let following := cs.any (· ≠ '/')
    if c = '/' then
      if name.isEmpty || !following then beginnings (c :: seen) [] cs
      else
        (String.ofList seen.reverse, String.ofList name.reverse) :: beginnings (c :: seen) [] cs
    else beginnings (c :: seen) (c :: name) cs

/-- Whether a directory can be made the one to work in. -/
def enter (t : FileTree) (cwd : Location) (p : Path) : Except Fault Unit := do
  match ← t.find cwd p with
  | (_, .directory m) => if m.ownerRuns then return () else throw .denied
  | _ => throw .notDirectory

/-- Makes a parent and enters it. Where it cannot be entered because it is not there, the reason why
it could not be made is the better one. -/
def makeParent (t : FileTree) (cwd : Location) (shown name : String) : Except Fault FileTree :=
  let made := if name = ".." then .error .alreadyThere else t.makeDirectory cwd ⟨shown⟩
  let after := match made with
    | .ok t => t
    | .error _ => t
  match enter after cwd ⟨shown⟩, made with
  | .ok (), _ => .ok after
  | .error .notFound, .error f => .error f
  | .error f, _ => .error f

def makeParents (cwd : Location) :
    FileTree → List (String × String) → FileTree × Option (String × Fault)
  | t, [] => (t, none)
  | t, (shown, name) :: rest =>
    if name = "." then makeParents cwd t rest
    else match makeParent t cwd shown name with
      | .ok t => makeParents cwd t rest
      | .error f => (t, some (shown, f))

/-- Makes a directory, parents first; one that is there already will do. -/
def make (r : Running) (cwd : Location) (file : String) : Running :=
  let refuse (r : Running) (deed shown : String) (f : Fault) : Running :=
    r.fail 1 ("/bin/mkdir: cannot " ++ deed ++ " " ++ Text.escapedName shown ++ ": " ++ f.words)
  match makeParents cwd r.files (beginnings [] [] file.toList) with
  | (files, some (shown, f)) => refuse { r with files } "create directory" shown f
  | (files, none) =>
    let r := { r with files }
    match files.makeDirectory cwd ⟨file⟩ with
    | .ok files => { r with files, last := 0 }
    | .error f =>
      match files.find cwd ⟨file⟩ with
      | .ok (_, n) => if n.isDirectory then r.done else refuse r "create directory" file f
      | .error f' =>
        if f = .alreadyThere && f' != .notFound && f' != .notDirectory then refuse r "stat" file f'
        else refuse r "create directory" file f

end Utility

end Regression
