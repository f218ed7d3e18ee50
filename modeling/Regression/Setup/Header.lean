import Regression.Setup.Basic

namespace Regression.Setup

/-- The variables that stand for options, and the value of the execution options. -/
def optionVariables (s : Setup) : Arranging String := do
  let o := s.settings
  if o.memLeaks || o.memLeaksLog.isSome then
    provide "CHPL_MEM_LEAK_TESTING" "true"
  let leaksLog := o.memLeaksLog.map fun p => s.cwd / p.text
  if let some p := leaksLog then
    if (← getThe Machine).isFile p then
      note ("[Removing memory leaks log file with duplicate name " ++ p.text ++ "]")
      removeFile p
  if o.compOnly then
    provide "CHPL_COMPONLY" "true"
  if o.noStdinRedirect || o.stdinRedirect then
    provide "CHPL_NO_STDIN_REDIRECT" "true"
    if o.stdinRedirect then
      provide "CHPL_TEST_FORCE_STDIN_REDIRECT" "true"
  if let some timeout := o.launcherTimeout then
    provide "CHPL_LAUNCHER_TIMEOUT" timeout
  provide "CHPL_TEST_NUM_TRIALS" (toString o.trials)
  if let some root := o.testRoot then
    provide "CHPL_TEST_ROOT_DIR" root.text
  return o.execoptsValue leaksLog

def threadsName : String := "CHPL_RT_NUM_THREADS_PER_LOCALE"

/-- What valgrind asks of the toolchain. -/
def checkValgrind (t : Toolchain) : Except Fatal Unit :=
  let supported := (t.get? "CHPL_RE2_VALGRIND_SUPPORT").any fun v =>
    v == "1" || v == "true" || v == "True" || v == "yes"
  if t.tasks != "fifo" then .error .valgrindTasks
  else if t.targetMemory != "cstdlib" then .error .valgrindMemory
  else if t.re2 != "none" && !supported then .error .valgrindExpressions
  else .ok ()

def valgrind (s : Setup) : Arranging Unit := do
  let o := s.settings
  if o.valgrind then
    note "[valgrind: ON]"
    let some binary ← firstLineOf "which" ["valgrind"] | throw (.fatal .noValgrind)
    let version ← firstLineOf "valgrind" ["--version"]
    note ("[valgrind binary: " ++ binary ++ "]")
    note ("[valgrind version: " ++ version.getD "" ++ "]")
    provide "CHPL_TEST_VGRND_COMP" "on"
    provide "CHPL_TEST_VGRND_EXE" "on"
  else
    provide "CHPL_TEST_VGRND_COMP" "off"
    if o.valgrindExe then
      note "[valgrind: EXE only]"
      provide "CHPL_TEST_VGRND_EXE" "on"
    else
      note "[valgrind: OFF]"
      provide "CHPL_TEST_VGRND_EXE" "off"
  if o.valgrind || o.valgrindExe then
    if (← bound? threadsName).isNone then
      provide threadsName "450"
    else
      note ("[Warning: Deadlock is possible since you set " ++ threadsName ++ "]")
    provide "CHPL_RT_NUM_THREADS_PER_LOCALE_QUIET" "yes"
    match checkValgrind s.toolchain with
    | .ok () => return
    | .error cause => throw (.fatal cause)

/-- The head of the log. -/
def general (s : Setup) : Arranging Unit := do
  note ("[Starting Chapel regression tests - " ++ (← getThe Machine).clock.runStamp ++ "]")
  let branch ← git s.cwd ["rev-parse", "--abbrev-ref", "HEAD"]
  let commit ← git s.cwd ["rev-parse", "--short", "HEAD"]
  note ("[git branch: '" ++ branch.getD "unknown" ++ "' (" ++ commit.getD "unknown" ++ ")]")
  if s.settings.chplHomeWarn && !within (← getThe Machine) s.cwd s.layout.home then
    say "[Warning: start_test not invoked from a subdirectory of $CHPL_HOME]"
  note ("[starting directory: \"" ++ s.cwd.text ++ "\"]")
  note ("[Logs directory: \"" ++ s.layout.logsDirectory.text ++ "\"]")
  note ("[log_file: \"" ++ s.files.logFile.text ++ "\"]")
  note ("[CHPL_HOME: " ++ s.layout.home.text ++ "]")
  note ("[host platform: " ++ s.toolchain.hostPlatform ++ "]")
  note ("[target platform: " ++ s.toolchain.targetPlatform ++ "]")
  s.valgrind

def switchText (on : Bool) : String := if on then "ON" else "OFF"

def performanceFlags (s : Setup) : Arranging Unit := do
  let o := s.settings
  note ("[performance tests: " ++ switchText o.performance ++ "]")
  if o.performance then
    provide "CHPL_TEST_PERF" "on"
    if o.perfLabel != "perf" then
      note ("[performance label: " ++ o.perfLabel ++ "]")
    provide "CHPL_TEST_PERF_LABEL" o.perfLabel
  note ("[compiler performance tests: " ++ switchText o.compPerformance ++ "]")
  if o.compPerformance then
    provide "CHPL_TEST_COMP_PERF" "on"
  note ("[number of trials: " ++ toString o.trials ++ "]")
  note ("[performance graph generation: " ++ switchText o.genGraphs ++ "]")
  if o.genGraphs then
    note ("[performance graph ranges: " ++ switchText o.graphsDispRange ++ "]")
    note ("[performance graph data reduction: " ++ o.graphsGenDefault.text ++ "]")

end Regression.Setup
