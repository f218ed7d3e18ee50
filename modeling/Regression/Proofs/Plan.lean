import Regression.Phases
import Regression.Proofs.Markers
import Regression.Proofs.Selection

namespace Regression

namespace PerfGraphs

variable (g : PerfGraphs) (t : FileTree) (cwd : Location)

/-- The graph helper at work on graph files. -/
def command (directory : Path) (graphFiles : List String) : Command :=
  g.tool.command (g.locationArgs ++ ["-n", g.testName]) (g.reductionArgs ++ graphFiles) directory

def testCommands (test : Path) : List Command :=
  if t.isFile cwd (fileFor test) then
    [g.command (test.parent.getD ⟨"."⟩) [(fileFor test).text]]
  else []

/-- The graph files directly in a directory. -/
def graphNames (directory : Path) : List String :=
  match t.list cwd directory with
  | .ok entries => (entries.map (·.1)).filter fun name => Text.endsWith name ".graph"
  | .error _ => []

def directoryCommands (directory : Path) : List Command :=
  if graphNames t cwd directory = [] then [] else [g.command directory (graphNames t cwd directory)]

def listCommand (testDirectory : Path) (perfLabel : String) : Command :=
  g.tool.command (g.locationArgs ++ ["-t", testDirectory.text, "-n", g.testName])
    (g.reductionArgs ++ ["-g", (listPath testDirectory perfLabel).text]) testDirectory

end PerfGraphs

def CompilerPerf.graphCommand (k : CompilerPerf) (tool : GraphTool) (testDirectory : Path) :
    Command :=
  tool.command
    ["-p", k.datDirectory.text, "-o", k.htmlDirectory.text, "-a",
      "Chapel Compiler Performance Graphs", "-n", k.testName]
    ["-g", (testDirectory / "COMPGRAPHFILES").text, "-t", testDirectory.text, "-m",
      "all:v,examples:v", "-x"] testDirectory

namespace Phases

variable (p : Phases) (t : FileTree) (cwd : Location) (fires : Path → Path → Bool)

/-- A directory's own runner or the shared one. -/
def runnerIn (d : Path) : Path :=
  if t.isExecutable cwd (d / Walk.runnerName) then d / Walk.runnerName
  else p.context.testUtil Walk.runnerName

/-- A named file is cleaned up after, run as a single test unless there is only to be graphed, and
graphed where it has a graph file. -/
def fileCommands (file : Path) : List Command :=
  let d := file.parent.getD ⟨"/"⟩
  let test := some (Runner.nameOf file)
  [Runner.cleanCommand p.fileContext d test] ++
    (if runsFiles p.settings then [Runner.command p.fileContext (p.runnerIn t cwd d) d test]
      else []) ++
    if p.settings.genGraphs then p.graphs.toList.flatMap (·.testCommands t cwd file) else []

/-- What is started in a directory that a pass selects. -/
def directoryCommands (mode : RunMode) (d : Path) : List Command :=
  if mode = .graph then p.graphs.toList.flatMap (·.directoryCommands t cwd d)
  else [Runner.cleanCommand p.directoryContext d none,
    Runner.command p.directoryContext (p.runnerIn t cwd d) d none]

def terrain (mode : RunMode) : Terrain :=
  { files := t, cwd, options := walkOptions p.settings, mode
    directive := Skip.directive t cwd p.directoryContext fires }

def conditionCommands (d : Path) : List Command :=
  Skip.asked t cwd p.directoryContext fires
    (fun d script => [Skip.question p.directoryContext d script]) d

/-- One pass over a tree: in each directory that the walk comes to, what its conditions ask, and
then, if it is selected, what is started there. -/
def passCommands (root : Path) (mode : RunMode) : List Command :=
  (p.terrain t cwd fires mode).round
    (fun l d => (p.terrain t cwd fires mode).adds l d
      (p.conditionCommands t cwd fires) (p.directoryCommands t cwd mode)) root

def compilerCommands (uptime : Nat) : List Command :=
  p.plan.compiler.toList.flatMap fun k =>
    [k.combineCommand p.context (uptime - k.started), k.graphCommand p.tool p.layout.testDirectory]

def listCommands : List Command :=
  if p.settings.genGraphs then
    p.graphs.toList.map (·.listCommand p.layout.testDirectory p.settings.perfLabel)
  else []

/-- Everything that a run is to start, in order. -/
def planned (files roots : List Path) (uptime : Nat) : List Command :=
  files.flatMap (p.fileCommands t cwd) ++
    (roots.flatMap fun root => p.settings.directoryPasses.flatMap (p.passCommands t cwd fires root)) ++
    p.compilerCommands uptime ++ p.listCommands

end Phases

end Regression
