import Regression.FileTree

namespace Regression

open Text (Bytes)

namespace FileTree

/-- Making or removing an entry writes the directory that holds it. -/
def checkHolder (t : FileTree) (l : Location) : Except Fault Unit :=
  match t.node? l.tail with
  | some (.directory m) => if m.ownerWrites && m.ownerRuns then .ok () else .error .denied
  | some _ => .error .notDirectory
  | none => .error .notFound

def dropSeparators (p : Path) : Path :=
  match (p.text.toList.reverse.dropWhile (· = '/')).reverse with
  | [] => p
  | cs => ⟨String.ofList cs⟩

def makeDirectory (t : FileTree) (cwd : Location) (p : Path) : Except Fault FileTree := do
  checkPath p
  let (l, there) ← t.locate false cwd (dropSeparators p)
  if there then throw .alreadyThere
  t.checkHolder l
  return t.put l (.directory .newDirectory)

/-- Makes a directory where none is yet, parents first. -/
def makeDirectories (t : FileTree) (cwd : Location) (p : Path) : Except Fault FileTree :=
  if p.text.isEmpty then .ok t else make p.ancestors
where
  make : List Path → Except Fault FileTree
    | [] => .ok t
    | p :: parents =>
      if p.text.isEmpty then .ok t
      else match t.makeDirectory cwd p with
        | .ok t => .ok t
        | .error .notFound => do
          let t ← make parents
          match t.makeDirectory cwd p with
          | .ok t => return t
          | .error f => if t.isDirectory cwd p then return t else throw f
        | .error f => if t.isDirectory cwd p then .ok t else .error f

def makeLink (t : FileTree) (cwd : Location) (p : Path) (target : String) :
    Except Fault FileTree := do
  if target.isEmpty then throw .notFound
  let (l, there) ← t.locate false cwd p
  if there then throw .alreadyThere
  t.checkHolder l
  return t.put l (.link target)

def removeFile (t : FileTree) (cwd : Location) (p : Path) : Except Fault FileTree := do
  let (l, n) ← t.findItself cwd p
  if n.isDirectory then throw .isDirectory
  t.checkHolder l
  return t.prune l

/-- Whether everything below a place can be taken away: each directory there can be listed, and one
that holds something can be entered and written. -/
def isClearable (t : FileTree) (l : Location) : Bool :=
  t.entries.all fun (l', n) =>
    match n with
    | .directory m =>
      !l.isSuffixOf l' ||
        m.ownerReads && (m.ownerWrites && m.ownerRuns || (t.children l').isEmpty)
    | _ => true

/-- Removes a directory with all in it. A link is removed itself; a file is refused. -/
def removeDirectories (t : FileTree) (cwd : Location) (p : Path) : Except Fault FileTree := do
  let (l, n) ← t.findItself cwd p
  match n with
  | .link _ => t.removeFile cwd p
  | .directory _ =>
    if !t.isClearable l then throw .denied
    t.checkHolder l
    return t.prune l
  | _ => throw .notDirectory

/-- Removes whatever lies at a path. -/
def removeAny (t : FileTree) (cwd : Location) (p : Path) : Except Fault FileTree := do
  match ← t.findItself cwd p with
  | (_, .directory _) => t.removeDirectories cwd p
  | _ => t.removeFile cwd p

def setMode (t : FileTree) (cwd : Location) (p : Path) (m : Mode) : Except Fault FileTree := do
  let (l, n) ← t.find cwd p
  return t.put l (n.withMode m)

/-- A file opened for writing. A regular file is known by its serial number, so that what is
written through the handle stays with it when its name is taken away; it is written at an offset, or
at its end. -/
inductive Handle where
  | file (serial : Nat) (offset : Option Nat)
  | device (l : Location)
  deriving DecidableEq, Repr

/-- Contents with `new` written from `offset` on; a gap is filled with zeros. -/
def overwrite (old : Bytes) (offset : Nat) (new : Bytes) : Bytes :=
  old.take offset ++ List.replicate (offset - old.length) 0 ++ new ++ old.drop (offset + new.length)

/-- Applies `f` to the contents of the file with this serial number. -/
def mapContents (t : FileTree) (serial : Nat) (f : Bytes → Bytes) : FileTree :=
  { t with
    entries := t.entries.map fun e =>
      match e.2 with
      | .file s m c => if s = serial then (e.1, .file s m (f c)) else e
      | _ => e }

inductive Opening where
  /-- From the start, after all old contents are dropped. -/
  | afresh
  /-- At the end. -/
  | append
  deriving DecidableEq

/-- Opens a file for writing and makes it where there is none. A path that ends with a separator can
only be a directory's, whatever lies there. -/
def openFile (t : FileTree) (cwd : Location) (p : Path) (how : Opening) (m : Mode) :
    Except Fault (FileTree × Handle) := do
  checkPath p
  let offset := if how = .append then none else some 0
  let forDirectory := p.text.toList.getLast? == some '/'
  let (l, there) ← t.locate (!forDirectory) cwd (dropSeparators p)
  if forDirectory then throw .isDirectory
  if there then
    match t.node? l with
    | some (.file s m _) =>
      if !m.ownerWrites then throw .denied
      return (if how = .afresh then t.mapContents s fun _ => [] else t, .file s offset)
    | some (.directory _) => throw .isDirectory
    | some (.device _) => return (t, .device l)
    | _ => throw .notFound
  else
    t.checkHolder l
    let t' := t.put l (.file t.serial m [])
    return ({ t' with serial := t.serial + 1 }, .file t.serial offset)

def write (t : FileTree) (h : Handle) (bytes : Bytes) : Except Fault (FileTree × Handle) :=
  match h with
  | .file s (some offset) =>
    .ok (t.mapContents s fun old => overwrite old offset bytes,
      .file s (some (offset + bytes.length)))
  | .file s none => .ok (t.mapContents s fun old => old ++ bytes, h)
  | .device l =>
    match t.node? l with
    | some (.device (some room)) =>
      if bytes.length ≤ room then .ok (t.put l (.device (some (room - bytes.length))), h)
      else .error .noSpace
    | _ => .ok (t, h)

/-- Makes a file hold exactly these bytes. -/
def writeFile (t : FileTree) (cwd : Location) (p : Path) (bytes : Bytes) :
    Except Fault FileTree := do
  let (t, h) ← t.openFile cwd p .afresh .newFile
  let (t, _) ← t.write h bytes
  return t

/-- Copies a regular file with its mode. The target is opened before the source is read. -/
def copyFile (t : FileTree) (cwd : Location) (source target : Path) : Except Fault FileTree := do
  match ← t.find cwd source with
  | (_, .file _ m _) =>
    if !m.ownerReads then throw .denied
    let (t, h) ← t.openFile cwd target .afresh m
    let (t, _) ← t.write h (← t.read cwd source)
    match h with
    | .file .. => t.setMode cwd target m
    | .device _ => return t
  | _ => throw .notFound

end FileTree

end Regression
