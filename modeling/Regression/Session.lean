import Regression.Defaults
import Regression.Phases
import Regression.Summary
import Regression.Target

namespace Regression

/-- The exit codes of the program. -/
structure ExitCode where
  code : Nat
  deriving DecidableEq, Repr

namespace ExitCode

/-- No failure was logged, or the session only cleaned. -/
def success : ExitCode := ⟨0⟩

/-- A prerequisite is missing. -/
def environment : ExitCode := ⟨1⟩

/-- A failure was logged. -/
def failures : ExitCode := ⟨2⟩

/-- No target exists. -/
def invalidTargets : ExitCode := ⟨3⟩

end ExitCode

/-- What a finished session answers. There is no summary where it only cleaned or never began. -/
structure Outcome where
  exitCode : ExitCode
  summary : Option Summary
  logFile : Path
  summaryFile : Path
  deriving DecidableEq, Repr

/-- The directory for the runners' own files. One that the session made goes when it ends; one that
was given stays. -/
inductive Scratch where
  | owned (path : Path)
  | given (path : Path)
  deriving DecidableEq, Repr

def Scratch.path : Scratch → Path
  | owned p => p
  | given p => p

/-- How the tests of a session end. -/
inductive Ending where
  /-- No target names anything. -/
  | untested
  | tested (summary : Option Summary)
  /-- By an error that the log does not tell of. -/
  | failed (e : Error)

namespace ProjectDefaults

def fileName : String := ".start-test.json"

def load (file : Path) : Job ProjectDefaults := do
  match ofText? (← readText file) with
  | some d => return d
  | none => throw (.configuration (.defaults file))

/-- The nearest defaults file, in a directory or above it. -/
def find? (m : Machine) (directory : Path) : Option Path :=
  (directory.ancestors.map fun d => d / fileName).find? m.isFile

def discover (directory : Path) : Job (Option ProjectDefaults) := do
  match find? (← get) directory with
  | some file => some <$> load file
  | none => return none

end ProjectDefaults

/-- One run of tests: where everything lies and what the options mean. -/
structure Session where
  settings : Settings
  environment : Environment
  cwd : Path
  layout : Layout
  toolchain : Toolchain
  files : LogFiles

namespace Session

/-- The login name by which logs are told apart. -/
def userName (e : Environment) : String :=
  (["LOGNAME", "USER", "LNAME", "USERNAME"].findSome? e.getFilled?).getD "unknown"

def create (settings : Settings) (e : Environment) (cwd : Path) : Job Session := do
  let e := prepareEnvironment e
  let layout ← Layout.discover e settings.testRoot cwd
  let settings := match ← ProjectDefaults.discover cwd with
    | some d => settings.applyDefaults d
    | none => settings
  let settings := (settings.applyEnvironment e).normalize
  let queried ← attempt (Toolchain.query layout.utilDirectory e)
  let toolchain := queried.getD (Toolchain.ofEnvironment e)
  let files := LogFiles.resolve layout.logsDirectory (userName e) toolchain.targetPlatform
    (← get).process settings.logFile cwd
  return { settings, environment := e, cwd, layout, toolchain, files }

/-- A directory for the runners: the one given, or a new one with a name of its own. -/
def openScratch (s : Session) : Job Scratch := do
  match s.environment.getFilled? "CHPL_TEST_TMP_DIR" with
  | some directory => return .given ⟨directory⟩
  | none =>
    let m ← get
    let path := m.scratchRoot / ("chplTestTmpDir." ++ Clock.digits 6 m.scratches)
    set { m with scratches := m.scratches + 1 }
    editOr (fun fault => .system (.named fault path)) fun t cwd => t.makeDirectory cwd path
    return .owned path

def closeScratch : Scratch → Job Unit
  | .given _ => return
  | .owned path =>
    editOr (fun fault => .system (.named fault path)) fun t cwd => t.removeDirectories cwd path

def cleanUp (s : Session) (scratch : Scratch) : Job Unit := do
  s.files.publish
  closeScratch scratch

def outcomeOf (s : Session) (exitCode : ExitCode) (summary : Option Summary) : Outcome :=
  { exitCode, summary, logFile := s.files.logFile, summaryFile := s.files.summaryFile }

/-- Looks at what a target names; one that names nothing is reported. -/
def sortTarget (s : Session) (target : Path) : Job (Option Target) := do
  let sorted := Target.classify (← get) target s.cwd
  if sorted.isNone then
    note ("[Error: " ++ target.text ++ " is not a valid file or directory]")
  return sorted

/-- Sorts the targets. -/
def sortTargets (s : Session) : List Path → Job (List Target)
  | [] => return []
  | target :: rest => do
    let sorted ← s.sortTarget target
    let others ← s.sortTargets rest
    return sorted.toList ++ others

def joinPaths (ps : List Path) : String := String.intercalate " " (ps.map (·.text))

/-- What is tested where no target is named. -/
def defaultDirectory (s : Session) : Path :=
  if s.cwd.same s.layout.home then s.layout.testDirectory else s.cwd

/-- Setup and the test phases. -/
def execute (s : Session) (scratch : Scratch) (files directories : List Path) : Job Unit := do
  let setup : Setup :=
    { settings := s.settings, layout := s.layout, toolchain := s.toolchain, files := s.files
      cwd := s.cwd }
  let (context, plan) ← setup.run
    (Context.create s.environment s.layout.utilDirectory scratch.path s.cwd)
  let directories ←
    if files.isEmpty && directories.isEmpty then do
      setup.specTests context
      pure [s.defaultDirectory]
    else pure directories
  note ("[tests: \"" ++ joinPaths files ++ "\"]")
  note ("[directories: " ++ (if s.settings.recurse then "" else "(nonrecursive): ") ++ "\"" ++
    joinPaths directories ++ "\"]")
  Setup.toolchainReport context
  Phases.run { settings := s.settings, layout := s.layout, context, plan } files directories

/-- Reads the log back, and writes its summary to its end and to a file of its own. What is said
while the log is closed reaches the console alone. -/
def summarize (s : Session) : Job Summary := do
  let date := (← get).clock.runStamp
  note ("[Done with tests - " ++ date ++ "]")
  note ("[Log file: " ++ s.files.logFile.text ++ " ]")
  noteBlank
  stopLog
  let text ← readText s.files.tmpLogFile
  let summary := Summary.ofLog s.settings.successMarker text
  if 0 < summary.skippedStdin then
    note ("[Skipped " ++ toString summary.skippedStdin ++ " tests with .stdin input]")
  let rendered := summary.render date
  restartLog
  note rendered
  keep fun t cwd => t.writeFile cwd s.files.tmpSummaryFile (Text.encode rendered)
  return summary

def junitCommand (s : Session) : Command :=
  let o := s.settings
  let file := match o.junitXmlFile with
    | some p => ["--junit-xml=" ++ (s.cwd / p.text).text]
    | none => []
  let removed := match o.junitRemovePrefix, o.testRoot with
    | some text, _ => ["--remove-prefix=" ++ text]
    | none, some root => ["--remove-prefix=" ++ root.text]
    | none, none => []
  { program := (s.layout.testUtil "convert_start_test_log_to_junit_xml.py").text
    arguments := ("--start-test-log=" ++ s.files.logFile.text) :: (file ++ removed)
    environment := s.environment }

/-- Turns the published log into a report for other tools. Whether that works is said on the
console alone. -/
def junitReport (s : Session) : Effect Unit := do
  say "[Generating jUnit XML report]"
  if (← attempt s.junitCommand.capture).isNone then
    say "[ERROR generating jUnit XML report]"

/-- What the log ends with: its summary, unless the session only cleaned. -/
def report (s : Session) : Job (Option Summary) := do
  let summary ←
    if s.settings.cleanOnly then do
      note "[Summary: CLEAN ONLY]"
      pure none
    else some <$> s.summarize
  noteBlank
  return summary

/-- Everything that is written to the log. -/
def test (s : Session) (scratch : Scratch) (targets : List Path) : Job Ending := do
  let sorted ← s.sortTargets targets
  if sorted.isEmpty && !targets.isEmpty then
    return .untested
  match ← outcome (s.execute scratch (sorted.filterMap Target.file?)
      (sorted.filterMap Target.directory?)) with
  | .ok () => return .tested (← s.report)
  | .error (.fatal cause) =>
    note ("[Error: " ++ cause.message ++ "]")
    return .tested (← s.report)
  | .error e => return .failed e

/-- The way out of a session: publishing, cleaning up and the exit code. -/
def finish (s : Session) (scratch : Scratch) (ending : Ending) : Job Outcome := do
  stopLog
  match ending with
  | .untested =>
    s.cleanUp scratch
    return s.outcomeOf .invalidTargets none
  | .tested summary =>
    s.cleanUp scratch
    if s.settings.junitXml then
      s.junitReport
    let failed := summary.any Summary.hasFailures
    return s.outcomeOf (if failed then .failures else .success) summary
  | .failed e =>
    let _ ← outcome (s.cleanUp scratch)
    throw e

/-- Starts the log of the session. What an earlier one left is removed. -/
def openLog (s : Session) : Job Unit := do
  s.files.prepare
  createLog s.files.tmpLogFile true

def runIn (s : Session) (scratch : Scratch) (targets : List Path) : Job Outcome := do
  s.openLog
  let ending ← s.test scratch targets
  s.finish scratch ending

/-- Tests the targets, or the default tree where there are none. However the session ends, a
directory that it made for the runners is taken away. -/
def run (s : Session) (targets : List Path) : Job Outcome := do
  let scratch ← s.openScratch
  match ← outcome (s.runIn scratch targets) with
  | .ok result => return result
  | .error e =>
    let _ ← outcome (closeScratch scratch)
    throw e

end Session

end Regression
