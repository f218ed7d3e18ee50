import Regression.Setup.Basic

namespace Regression.Setup

/-- The configured name of the machine, else the short host name in lowercase. -/
def perfTestName : Arranging String := do
  match ← bound? "CHPL_TEST_PERF_CONFIG_NAME" with
  | some name => return name
  | none =>
    let host ← match (← get).environment.getFilled? "HOSTNAME" with
      | some host => pure (some host)
      | none => firstLineOf "uname" ["-n"]
    let host := host.getD "localhost"
    return Text.lower (String.ofList (host.toList.takeWhile (· ≠ '.')))

def planGraphs (s : Setup) : Arranging GraphPlan := do
  let testName ← perfTestName
  let perfDirectory ← match (← get).environment.getFilled? "CHPL_TEST_PERF_DIR" with
    | some directory => pure (Path.mk directory)
    | none => do
      let directory := s.layout.home / "test" / "perfdat" / testName
      provide "CHPL_TEST_PERF_DIR" directory.text
      note ("[Warning: CHPL_TEST_PERF_DIR must be set for generating performance graphs, " ++
        "using default " ++ directory.text ++ "]")
      pure directory
  let description := s.settings.performanceDescription
  if description ≠ "" ∧ description ≠ "default" then
    provide "CHPL_TEST_PERF_DESCRIPTION" description
  return { perfDirectory, description, testName }

def planCompiler (s : Setup) : Arranging CompilerPerf := do
  let name ← perfTestName
  let datDirectory ← match ← bound? "CHPL_TEST_COMP_PERF_DIR" with
    | some directory => pure (Path.mk directory)
    | none => do
      let directory := s.layout.home / "test" / "compperfdat" / name
      note ("[Warning: CHPL_COMP_TEST_PERF DIR must be set for generating compiler performance " ++
        "graphs, using default " ++ directory.text ++ "]")
      pure directory
  let compiler ← CompilerPerf.start (← get).tmpDirectory datDirectory
    (name ++ s.settings.compPerformanceDescription)
  provide "CHPL_TEST_COMP_PERF_TEMP_DAT_DIR" compiler.tempDatValue
  return compiler

/-- Where the commit is recorded: with the test data, else with the compiler data. -/
def commitDirectory (o : Settings) (plan : PerfPlan) : Option Path :=
  if o.performance then plan.graphs.map fun g => g.perfDirectory / g.description
  else if o.compPerformance then plan.compiler.map (·.datDirectory)
  else none

def performanceDirectories (s : Setup) : Arranging PerfPlan := do
  let o := s.settings
  let graphs ← if o.performance || o.genGraphs then some <$> s.planGraphs else pure none
  let compiler ← if o.compPerformance then some <$> s.planCompiler else pure none
  let plan : PerfPlan := { graphs, compiler }
  if let some directory := commitDirectory o plan then
    let commit ← git s.cwd ["rev-parse", "HEAD"]
    recordCommit (← get) directory commit
  return plan

end Regression.Setup
