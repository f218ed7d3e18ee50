import Regression.Runner
import Regression.Setup

namespace Regression

/-- The work of a session after setup. -/
structure Phases where
  settings : Settings
  layout : Layout
  context : Context
  plan : PerfPlan

namespace Phases

def flag (b : Bool) : String := if b then "1" else "0"

def tool (p : Phases) : GraphTool :=
  GraphTool.create p.context p.settings.graphOpts p.settings.startDate

def graphs (p : Phases) : Option PerfGraphs :=
  p.plan.graphs.map fun g =>
    PerfGraphs.create p.tool g.perfDirectory g.description g.testName p.settings.graphsDispRange
      p.settings.graphsGenDefault

/-- Files that are named run even as futures and against the markers, unless the markers are to be
respected. -/
def fileContext (p : Phases) : Context :=
  p.context.withVars
    [("CHPL_TEST_FUTURES", "1"),
      ("CHPL_TEST_NOTESTS", flag !p.settings.respectNotests),
      ("CHPL_TEST_SINGLES", flag !p.settings.respectSkipifs)]

def directoryContext (p : Phases) : Context :=
  p.context.withVars
    [("CHPL_TEST_FUTURES", p.settings.futuresMode.value),
      ("CHPL_TEST_NOTESTS", "0"),
      ("CHPL_TEST_SINGLES", "0")]

/-- Whether named files are run, and not only graphed. -/
def runsFiles (o : Settings) : Bool := o.performance || !o.genGraphs

def singleFile (p : Phases) (file : Path) : Job Unit := do
  let o := p.settings
  let c := p.fileContext
  let directory := file.parent.getD ⟨"/"⟩
  noteBlank
  note ("[Cleaning file " ++ file.text ++ "]")
  Runner.clean c directory (some (Runner.nameOf file))
  if !o.cleanOnly then
    let code ← if runsFiles o then Runner.invoke c o.progress directory (some file) else pure 0
    if code ≠ 0 then
      note ("[Error running sub_test (code " ++ toString code ++ ") for " ++ c.displayPath file ++
        "]")
    if o.progress then
      complain "[done]"
    if o.genGraphs then
      if let some g := p.graphs then
        g.forTest file

/-- Cleans and runs a selected directory, or graphs it. -/
def handle (p : Phases) : Handler := fun directory mode => do
  if mode = .graph then
    if let some g := p.graphs then
      g.forDirectory directory
  else
    let c := p.directoryContext
    Runner.clean c directory none
    if !p.settings.cleanOnly then
      let code ← Runner.invoke c p.settings.progress directory none
      if code ≠ 0 then
        note ("[Error running sub_test (code " ++ toString code ++ ") in " ++ directory.text ++ "]")

def walkOptions (o : Settings) : WalkOptions :=
  { recurse := o.recurse, cleanOnly := o.cleanOnly, perfKeys := o.perfKeys }

def directory (p : Phases) (root : Path) : Job Unit := do
  for mode in p.settings.directoryPasses do
    let _ ← walk p.directoryContext (walkOptions p.settings) mode p.handle root

/-- Named files first, then the passes over each directory, then the graphs of the whole run. -/
def run (p : Phases) (files directories : List Path) : Job Unit := do
  for file in files do
    p.singleFile file
  for root in directories do
    p.directory root
  if let some compiler := p.plan.compiler then
    compiler.finish p.context p.tool p.layout.testDirectory
  if p.settings.genGraphs then
    if let some g := p.graphs then
      g.fromList p.layout.testDirectory p.settings.perfLabel

end Phases

end Regression
