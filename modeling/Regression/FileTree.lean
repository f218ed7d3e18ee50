import Regression.Fault

namespace Regression

open Text (Bytes)

/-- Permission bits. The owner's bits decide what this process may do: read and write a file, run
it, list a directory, change it, and look names up in it. -/
structure Mode where
  bits : Nat
  deriving DecidableEq, Repr

namespace Mode

def ownerReads (m : Mode) : Bool := m.bits &&& 0o400 != 0

def ownerWrites (m : Mode) : Bool := m.bits &&& 0o200 != 0

def ownerRuns (m : Mode) : Bool := m.bits &&& 0o100 != 0

def someoneWrites (m : Mode) : Bool := m.bits &&& 0o222 != 0

def someoneRuns (m : Mode) : Bool := m.bits &&& 0o111 != 0

def newFile : Mode := ⟨0o644⟩

def newDirectory : Mode := ⟨0o755⟩

end Mode

/-- A place in the tree: the names that lead to it, the innermost first. -/
abbrev Location := List String

def Location.path (l : Location) : Path :=
  ⟨"/" ++ String.intercalate "/" l.reverse⟩

inductive Node where
  | directory (mode : Mode)
  /-- A regular file. The serial number tells a file from one made later in its place. -/
  | file (serial : Nat) (mode : Mode) (contents : Bytes)
  | link (target : String)
  /-- A device that takes `room` more bytes, or any number of them. -/
  | device (room : Option Nat)
  deriving DecidableEq, Repr

namespace Node

def isDirectory : Node → Bool
  | directory _ => true
  | _ => false

def isFile : Node → Bool
  | file .. => true
  | _ => false

def isLink : Node → Bool
  | link _ => true
  | _ => false

def mode : Node → Mode
  | directory m => m
  | file _ m _ => m
  | _ => ⟨0o777⟩

def withMode (m : Mode) : Node → Node
  | directory _ => directory m
  | file s _ c => file s m c
  | n => n

end Node

/-- The files of a machine: what lies at each place, each place once. -/
structure FileTree where
  entries : List (Location × Node) := [([], .directory .newDirectory)]
  serial : Nat := 0

namespace FileTree

def node? (t : FileTree) (l : Location) : Option Node :=
  t.entries.lookup l

def put (t : FileTree) (l : Location) (n : Node) : FileTree :=
  { t with entries := (l, n) :: t.entries.filter (·.1 != l) }

/-- Takes away a place and all below it. -/
def prune (t : FileTree) (l : Location) : FileTree :=
  { t with entries := t.entries.filter fun e => !l.isSuffixOf e.1 }

def child? (l : Location) : Location × Node → Option (String × Node)
  | (name :: l', n) => if l' = l then some (name, n) else none
  | ([], _) => none

/-- What lies directly in a directory, in byte order of the names. -/
def children (t : FileTree) (l : Location) : List (String × Node) :=
  (t.entries.filterMap (child? l)).mergeSort fun a b => a.1 ≤ b.1

/-- A path of more bytes names nothing. -/
def pathLimit : Nat := 4095

def nameLimit : Nat := 255

def linkLimit : Nat := 40

inductive Reach where
  | arrived (l : Location)
  /-- Nothing lies there, in a directory that exists. -/
  | absent (l : Location)
  | refused (f : Fault)
  /-- A link met in the directory `l`, with `rest` still to go. -/
  | link (l : Location) (target : String) (rest : List String)

def reach (t : FileTree) (follow : Bool) : Location → List String → Reach
  | l, [] => .arrived l
  | l, s :: rest =>
    match t.node? l with
    | some (.directory m) =>
      if s = "" then reach t follow l rest
      else if !m.ownerRuns then .refused .denied
      else if s = "." then reach t follow l rest
      else if s = ".." then reach t follow l.tail rest
      else if s.utf8ByteSize > nameLimit then .refused .nameTooLong
      else match t.node? (s :: l) with
        | none => if rest.isEmpty then .absent (s :: l) else .refused .notFound
        | some (.link target) =>
          if rest.isEmpty && !follow then .arrived (s :: l) else .link l target rest
        | some _ => reach t follow (s :: l) rest
    | some _ => .refused .notDirectory
    | none => .refused .notFound

/-- The steps that a path spells. A separator at its end asks for a directory: the empty step leads
from one to itself. -/
def steps (p : Path) : List String :=
  let names := p.pieces.filter (· != "")
  if p.text.toList.getLast? == some '/' then names ++ [""] else names

/-- Where a path leads, with at most `links` links followed on the way. -/
def travel (t : FileTree) (follow : Bool) :
    Nat → Location → List String → Except Fault (Location × Bool)
  | links, l, names =>
    match t.reach follow l names with
    | .arrived l => .ok (l, true)
    | .absent l => .ok (l, false)
    | .refused f => .error f
    | .link l target rest =>
      match links with
      | 0 => .error .linkLoop
      | links + 1 =>
        let p : Path := ⟨target⟩
        travel t follow links (if p.isAbsolute then [] else l) (steps p ++ rest)

def checkPath (p : Path) : Except Fault Unit :=
  if p.text.isEmpty then .error .notFound
  else if p.text.toList.contains '\x00' then .error .zeroInName
  else if p.text.utf8ByteSize > pathLimit then .error .nameTooLong
  else .ok ()

/-- The place that a path names from the directory `cwd`, and whether something lies there. A link
at the end is followed or is itself the place. -/
def locate (t : FileTree) (follow : Bool) (cwd : Location) (p : Path) :
    Except Fault (Location × Bool) := do
  checkPath p
  t.travel follow linkLimit (if p.isAbsolute then [] else cwd) (steps p)

def findAt (t : FileTree) (follow : Bool) (cwd : Location) (p : Path) :
    Except Fault (Location × Node) := do
  let (l, _) ← t.locate follow cwd p
  match t.node? l with
  | some n => return (l, n)
  | none => throw .notFound

/-- The place and the node that a path names, links followed. -/
def find (t : FileTree) (cwd : Location) (p : Path) : Except Fault (Location × Node) :=
  t.findAt true cwd p

/-- The place and the node that a path names, where a link at its end is the node. -/
def findItself (t : FileTree) (cwd : Location) (p : Path) : Except Fault (Location × Node) :=
  t.findAt false cwd p

def isDirectory (t : FileTree) (cwd : Location) (p : Path) : Bool :=
  match t.find cwd p with
  | .ok (_, n) => n.isDirectory
  | .error _ => false

def isFile (t : FileTree) (cwd : Location) (p : Path) : Bool :=
  match t.find cwd p with
  | .ok (_, n) => n.isFile
  | .error _ => false

def isThere (t : FileTree) (cwd : Location) (p : Path) : Bool :=
  (t.find cwd p).isOk

/-- A directory that someone may write. -/
def isWritableDirectory (t : FileTree) (cwd : Location) (p : Path) : Bool :=
  match t.find cwd p with
  | .ok (_, .directory m) => m.someoneWrites
  | _ => false

/-- A regular file that someone may run. -/
def isExecutable (t : FileTree) (cwd : Location) (p : Path) : Bool :=
  match t.find cwd p with
  | .ok (_, .file _ m _) => m.someoneRuns
  | _ => false

def canonical (t : FileTree) (cwd : Location) (p : Path) : Except Fault Location :=
  (t.find cwd p).map (·.1)

/-- The names in a directory, with what lies under each. -/
def list (t : FileTree) (cwd : Location) (p : Path) : Except Fault (List (String × Node)) := do
  match ← t.find cwd p with
  | (l, .directory m) => if m.ownerReads then return t.children l else throw .denied
  | _ => throw .notDirectory

def read (t : FileTree) (cwd : Location) (p : Path) : Except Fault Bytes := do
  match ← t.find cwd p with
  | (_, .file _ m c) => if m.ownerReads then return c else throw .denied
  | (_, .directory m) => throw (if m.ownerReads then .isDirectory else .denied)
  | _ => return []

def readText (t : FileTree) (cwd : Location) (p : Path) : Except Fault String := do
  match Text.decode? (← t.read cwd p) with
  | some s => return s
  | none => throw .notText

end FileTree

end Regression
