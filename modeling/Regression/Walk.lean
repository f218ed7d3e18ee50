import Regression.Graphs
import Regression.Skip

namespace Regression

structure WalkOptions where
  recurse : Bool := true
  /-- Skip markers count for nothing when a walk only cleans. -/
  cleanOnly : Bool := false
  /-- The ending of the files that mark performance tests, without its dot. -/
  perfKeys : String := "perfkeys"
  deriving DecidableEq, Repr

/-- How many directories a walk met, by what became of them. -/
structure WalkReport where
  visited : Nat := 0
  pruned : Nat := 0
  skipped : Nat := 0
  empty : Nat := 0
  handled : Nat := 0
  inaccessible : Nat := 0
  deriving DecidableEq, Repr

/-- What is done at a selected directory. -/
abbrev Handler := Path → RunMode → Job Unit

/-- A walk in progress: a job that keeps the report. -/
abbrev Walking := StateT WalkReport Job

namespace Walk

def runnerName : String := "sub_test"

def pretestName : String := "PRETEST"

/-- Whether a file of this name makes its directory worth testing. -/
def isTestName (o : WalkOptions) : RunMode → String → Bool
  | .performance, name => Text.endsWith name ("." ++ o.perfKeys)
  | _, name => name == pretestName || testEndings.any (Text.endsWith name)

/-- Whether a directory holds anything to test. A runner of its own counts for ordinary runs. -/
def hasTests (m : Machine) (o : WalkOptions) (directory : Path) (mode : RunMode) : Bool :=
  match m.list directory with
  | .error _ => false
  | .ok entries =>
    (entries.any fun (name, n) => !n.isDirectory && isTestName o mode name) ||
      (mode = .execute && m.isExecutable (directory / runnerName))

/-- Debug symbols lie in directories that nobody tests. -/
def inSymbolBundle (directory : Path) : Bool :=
  directory.components.any fun
    | .name s => Text.endsWith s ".dSYM"
    | _ => false

/-- Whether a directory can be entered and listed. -/
def isAccessible (m : Machine) (directory : Path) : Bool :=
  m.isDirectory directory && m.isThere (directory / ".") && (m.list directory).isOk

def cannotEnter (directory : Path) : String :=
  "[Warning: Cannot cd into " ++ directory.text ++ " skipping directory]"

def count (f : WalkReport → WalkReport) : Walking Unit := modify f

/-- Reports a directory that cannot be entered. -/
def reject (directory : Path) : Walking Unit := do
  note (cannotEnter directory)
  count fun r => { r with inaccessible := r.inaccessible + 1 }

/-- Does in a directory what its markers allow. The answer is whether what lies below it is
visited. -/
def obey (o : WalkOptions) (mode : RunMode) (handle : Handler) (directory : Path) (v : Verdict) :
    Walking Bool := do
  for line in v.info do
    say line
  for warning in v.warnings do
    note warning
  match v.directive with
  | .prune reason =>
    if reason = .skipifSibling then
      note ("[Skipping directory and children based on .skipif environment settings in " ++
        ((v.marker.map (·.text)).getD "") ++ "]")
    count fun r => { r with pruned := r.pruned + 1 }
    return false
  | .skipSelf reason =>
    if reason = .skipif then
      note "[Skipping directory based on SKIPIF environment settings]"
    count fun r => { r with skipped := r.skipped + 1 }
    return true
  | .test =>
    if mode = .graph || hasTests (← getThe Machine) o directory mode then
      handle directory mode
      count fun r => { r with handled := r.handled + 1 }
    else
      note ("[No tests in directory " ++ directory.text ++ "]")
      count fun r => { r with empty := r.empty + 1 }
    return true

/-- Works on one directory. -/
def workOn (c : Context) (o : WalkOptions) (mode : RunMode) (handle : Handler) (directory : Path) :
    Walking Bool := do
  noteBlank
  note ("[Working on directory " ++ directory.text ++ "]")
  count fun r => { r with visited := r.visited + 1 }
  let v ← if o.cleanOnly then pure {} else (Skip.evaluate c directory : Effect Verdict)
  obey o mode handle directory v

/-- The directories directly below one, links not counted, in byte order of their names. -/
def below (m : Machine) (directory : Path) : List Path :=
  match m.list directory with
  | .ok entries =>
    entries.filterMap fun (name, n) => if n.isDirectory then some (directory / name) else none
  | .error _ => []

/-- Visits a directory and, parents first, those below it. What lies below is listed before the
directory is worked on. No path is long enough to name `levels` levels. -/
def visit (c : Context) (o : WalkOptions) (mode : RunMode) (handle : Handler) :
    Nat → Path → Walking Unit
  | 0, directory => reject directory
  | levels + 1, directory => do
    let m ← getThe Machine
    let children := below m directory
    if !isAccessible m directory then
      reject directory
    else if !inSymbolBundle directory then
      if (← workOn c o mode handle directory) && o.recurse then
        for child in children do
          visit c o mode handle levels child

/-- Where a walk starts: at a directory, at a link to one, which is passed through and not itself
worked on, at something else, or nowhere. -/
def begin (c : Context) (o : WalkOptions) (mode : RunMode) (handle : Handler) (root : Path) :
    Walking Unit := do
  let m ← getThe Machine
  match m.files.findItself m.directory root with
  | .error _ => reject root
  | .ok (_, .directory _) => visit c o mode handle FileTree.pathLimit root
  | .ok (_, .link _) =>
    if !m.isThere root then reject root
    else if o.recurse && m.isDirectory root then
      if (m.list root).isOk then
        for child in below m root do
          visit c o mode handle FileTree.pathLimit child
      else reject root
  | .ok _ => return

end Walk

/-- Walks the tree under `root` and hands every eligible directory to `handle`. Only an error of
the handler or of the log ends a walk early. -/
def walk (c : Context) (o : WalkOptions) (mode : RunMode) (handle : Handler) (root : Path) :
    Job WalkReport := do
  note ("[Working from directory " ++ root.text ++ "]")
  let ((), report) ← (Walk.begin c o mode handle root).run {}
  return report

end Regression
