import Regression.Clock
import Regression.Command
import Regression.Error
import Regression.FileTree.Edit

namespace Regression

open Text (Bytes)

/-- A log file that is open or closed, and whether messages also go to the console. -/
structure Logger where
  path : Path
  handle : Option FileTree.Handle
  echo : Bool

/-- Where messages go: to memory, in order, or to a log file. -/
inductive Log where
  | memory (messages : List String)
  | file (logger : Logger)

/-- What a tool made of the files, or else a step of the session. -/
structure Change where
  tool : Option Command
  before : FileTree
  after : FileTree

/-- All that a session can observe and change. -/
structure Machine where
  files : FileTree := {}
  directory : Location := []
  tools : Tools
  clock : Clock
  /-- Seconds since the machine started. -/
  uptime : Nat := 0
  process : Nat
  scratchRoot : Path
  scratches : Nat := 0
  log : Log := .memory []
  console : String := ""
  diagnostics : String := ""
  /-- Commands asked for so far, the last one first, those that could not start included. -/
  commands : List Command := []
  /-- Messages for the log so far, the last one first, those that a closed log left out included. -/
  notes : List String := []
  /-- What became of the files so far, the last change first, apart from what keeps the log and its
  summary. -/
  changes : List Change := []

abbrev Effect := StateM Machine

abbrev Job := ExceptT Error Effect

namespace Machine

def isFile (m : Machine) (p : Path) : Bool := m.files.isFile m.directory p

def isDirectory (m : Machine) (p : Path) : Bool := m.files.isDirectory m.directory p

def isThere (m : Machine) (p : Path) : Bool := m.files.isThere m.directory p

def isWritableDirectory (m : Machine) (p : Path) : Bool :=
  m.files.isWritableDirectory m.directory p

def isExecutable (m : Machine) (p : Path) : Bool := m.files.isExecutable m.directory p

def list (m : Machine) (p : Path) : Except Fault (List (String × Node)) :=
  m.files.list m.directory p

end Machine

/-- Text for the console only. -/
def say (line : String) : Effect Unit :=
  modify fun m => { m with console := m.console ++ line ++ "\n" }

/-- Text for the diagnostic stream. -/
def complain (line : String) : Effect Unit :=
  modify fun m => { m with diagnostics := m.diagnostics ++ line ++ "\n" }

/-- A change of the files by a step of the session, made where the machine works; `raise` tells of a
fault. -/
def editOr (raise : Fault → Error) (change : FileTree → Location → Except Fault FileTree) :
    Job Unit := do
  let m ← get
  match change m.files m.directory with
  | .ok files =>
    set { m with files, changes := { tool := none, before := m.files, after := files } :: m.changes }
  | .error fault => throw (raise fault)

def edit (change : FileTree → Location → Except Fault FileTree) : Job Unit :=
  editOr .system change

/-- A change by which the log and its summary are kept. -/
def keep (change : FileTree → Location → Except Fault FileTree) : Job Unit := do
  let m ← get
  match change m.files m.directory with
  | .ok files => set { m with files }
  | .error fault => throw (.system fault)

def makeDirectories (p : Path) : Job Unit := edit fun t cwd => t.makeDirectories cwd p

def removeFile (p : Path) : Job Unit := edit fun t cwd => t.removeFile cwd p

def removeDirectories (p : Path) : Job Unit := edit fun t cwd => t.removeDirectories cwd p

def writeText (p : Path) (text : String) : Job Unit :=
  edit fun t cwd => t.writeFile cwd p (Text.encode text)

def readText (p : Path) : Job String := do
  let m ← get
  match m.files.readText m.directory p with
  | .ok text => return text
  | .error fault => throw (.system fault)

end Regression
