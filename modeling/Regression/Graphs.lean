import Regression.Command.Run
import Regression.Context
import Regression.Settings
import Regression.Text.CaseMap
import Regression.Text.Lines

namespace Regression

/-- The endings of the files that a runner knows how to test. -/
def testEndings : List String := [".chpl", ".test.c", ".ml-test.c", ".test.cpp", ".ml-test.cpp"]

def dropEnding? (s ending : String) : Option String :=
  if Text.endsWith s ending then
    some (String.ofList (s.toList.take (s.toList.length - ending.toList.length)))
  else none

/-- The graph generator with what every run of it shares. -/
structure GraphTool where
  context : Context
  extraOpts : List String
  startDate : Option String

namespace GraphTool

def create (context : Context) (extraOpts : String) (startDate : Option String) : GraphTool :=
  { context, extraOpts := Text.words extraOpts, startDate }

/-- Extra options come first, then `args`, then the start date, then `trailing`. -/
def command (t : GraphTool) (args trailing : List String) (directory : Path) : Command :=
  let date := match t.startDate with
    | some date => ["-s", date]
    | none => []
  { program := (t.context.testUtil "genGraphs").text
    arguments := t.extraOpts ++ args ++ date ++ trailing
    environment := t.context.scope none
    directory := some directory }

/-- Whether a run succeeds. A generator that cannot start counts as a failed run. -/
def run (c : Command) : Job Bool := do
  match ← outcome c.follow with
  | .ok code => return code == 0
  | .error (.command ..) => return false
  | .error e => throw e

end GraphTool

/-- Graphs of how fast tests ran. -/
structure PerfGraphs where
  tool : GraphTool
  perfDirectory : Path
  htmlDirectory : Path
  testName : String
  displayRange : Bool
  reduction : GraphReduction

namespace PerfGraphs

def create (tool : GraphTool) (perfDirectory : Path) (description testName : String)
    (displayRange : Bool) (reduction : GraphReduction) : PerfGraphs :=
  { tool, perfDirectory, htmlDirectory := perfDirectory / description / "html", testName
    displayRange, reduction }

def locationArgs (g : PerfGraphs) : List String :=
  ["-p", g.perfDirectory.text, "-o", g.htmlDirectory.text]

def reductionArgs (g : PerfGraphs) : List String :=
  (if g.displayRange then [] else ["--no-bounds"]) ++ ["-r", g.reduction.text]

def generate (g : PerfGraphs) (directory : Path) (graphFiles : List String) : Job Unit := do
  let target := "graph_files in " ++ directory.text ++ " in " ++ g.htmlDirectory.text
  note ("[Executing genGraphs for " ++ target ++ "]")
  let command := g.tool.command (g.locationArgs ++ ["-n", g.testName])
    (g.reductionArgs ++ graphFiles) directory
  if ← GraphTool.run command then
    note ("[Success generating graphs for " ++ target ++ "]")
  else
    note ("[Error generating graphs for " ++ target ++ "]")

/-- The graph files directly in a directory, in byte order. -/
def filesIn (m : Machine) (directory : Path) : List String :=
  match m.list directory with
  | .ok entries => (entries.map (·.1)).filter fun name => Text.endsWith name ".graph"
  | .error _ => []

def forDirectory (g : PerfGraphs) (directory : Path) : Job Unit := do
  let files := filesIn (← get) directory
  if !files.isEmpty then
    g.generate directory files

/-- The graph file that goes with a test. -/
def fileFor (test : Path) : Path :=
  ⟨(testEndings.findSome? (dropEnding? test.text)).getD test.text ++ ".graph"⟩

/-- Graphs a single test where it has a graph file. -/
def forTest (g : PerfGraphs) (test : Path) : Job Unit := do
  let graph := fileFor test
  if (← get).isFile graph then
    g.generate (test.parent.getD ⟨"."⟩) [graph.text]

/-- The list of all graphs of a test tree; a label of its own gives it a name of its own. -/
def listPath (testDirectory : Path) (perfLabel : String) : Path :=
  testDirectory / ((if perfLabel = "perf" then "" else Text.upper perfLabel) ++ "GRAPHFILES")

def fromList (g : PerfGraphs) (testDirectory : Path) (perfLabel : String) : Job Unit := do
  let list := listPath testDirectory perfLabel
  note ("[Executing genGraphs for " ++ list.text ++ " in " ++ g.htmlDirectory.text ++ "]")
  let command := g.tool.command (g.locationArgs ++ ["-t", testDirectory.text, "-n", g.testName])
    (g.reductionArgs ++ ["-g", list.text]) testDirectory
  let result := if ← GraphTool.run command then "Success" else "Error"
  note ("[" ++ result ++ " generating graphs from " ++ list.text ++ " in " ++
    g.htmlDirectory.text ++ "]")

end PerfGraphs

/-- How fast the compiler worked during a session. -/
structure CompilerPerf where
  datDirectory : Path
  htmlDirectory : Path
  testName : String
  tempDatDirectory : Path
  started : Nat
  deriving DecidableEq, Repr

namespace CompilerPerf

/-- Timings are gathered in a directory of their own, which is emptied first. -/
def start (tmpDirectory datDirectory : Path) (testName : String) : Job CompilerPerf := do
  let tempDatDirectory := tmpDirectory / "tempCompPerfDatFiles"
  if (← get).isDirectory tempDatDirectory then
    removeDirectories tempDatDirectory
  return { datDirectory, htmlDirectory := datDirectory / "html", testName, tempDatDirectory
           started := (← get).uptime }

/-- The directory of the timings as tools are told it, with a separator at its end. -/
def tempDatValue (p : CompilerPerf) : String := p.tempDatDirectory.text ++ "/"

def combineCommand (p : CompilerPerf) (context : Context) (seconds : Nat) : Command :=
  { program := (context.testUtil "combineCompPerfData").text
    arguments := ["--tempDatDir", p.tempDatValue, "--elapsedTestTime", toString seconds, "--outDir",
      p.datDirectory.text]
    environment := context.scope none }

/-- Merges the timings and graphs them. -/
def report (p : CompilerPerf) (context : Context) (tool : GraphTool) (testDirectory : Path) :
    Job Unit := do
  let seconds := (← get).uptime - p.started
  note "[Combining dat files now]"
  match ← attempt (p.combineCommand context seconds).capture with
  | some output =>
    note output
    note "[Success combining compiler performance dat files]"
  | none => note "[Error combining compiler performance dat files]"
  let list := testDirectory / "COMPGRAPHFILES"
  note "[Creating compiler performance graphs now]"
  let command := tool.command
    ["-p", p.datDirectory.text, "-o", p.htmlDirectory.text, "-a",
      "Chapel Compiler Performance Graphs", "-n", p.testName]
    ["-g", list.text, "-t", testDirectory.text, "-m", "all:v,examples:v", "-x"] testDirectory
  let result := if ← GraphTool.run command then "Success" else "Error"
  note ("[" ++ result ++ " generating compiler performance graphs from " ++ list.text ++ " in " ++
    p.htmlDirectory.text ++ "]")

/-- Reports the timings, which then go. -/
def finish (p : CompilerPerf) (context : Context) (tool : GraphTool) (testDirectory : Path) :
    Job Unit := do
  p.report context tool testDirectory
  if (← get).isDirectory p.tempDatDirectory then
    removeDirectories p.tempDatDirectory

end CompilerPerf

/-- Adds the current commit to the performance data, so that graphs can tell dates by commits. -/
def recordCommit (context : Context) (datDirectory : Path) (commit : Option String) : Job Unit := do
  makeDirectories datDirectory
  let keys := context.tmpDirectory / "sha.perf_keys"
  writeText keys "sha "
  let out := context.tmpDirectory / "sha.exec.out.tmp"
  writeText out ((commit.map fun c => "sha " ++ c).getD "")
  let datFile := datDirectory / "perfSha.dat"
  note ("[Saving current git sha to " ++ datFile.text ++ "]")
  let result ← attempt (Command.capture
    { program := (context.testUtil "computePerfStats").text
      arguments := ["perfSha", datDirectory.text, keys.text, out.text]
      environment := context.scope none })
  match result with
  | some output => note output
  | none => note ("[Error: Failed to save current sha to " ++ datFile.text ++ "]")

end Regression
