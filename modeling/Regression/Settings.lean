import Regression.Environment
import Regression.Error
import Regression.Text.Blank
import Regression.Text.Numeral

namespace Regression

/-- Which future tests run. -/
inductive FuturesMode where
  | skip
  | included
  | only
  | skipIf
  deriving DecidableEq, Repr

namespace FuturesMode

def value : FuturesMode → String
  | skip => "0"
  | included => "1"
  | only => "2"
  | skipIf => "3"

def ofText (s : String) : Except Error FuturesMode :=
  match Text.trim s with
  | "0" => .ok skip
  | "1" => .ok included
  | "2" => .ok only
  | "3" => .ok skipIf
  | other => .error (.configuration (.futuresMode other))

end FuturesMode

/-- How several trials become one point of a graph. -/
inductive GraphReduction where
  | avg
  | min
  | max
  | med
  deriving DecidableEq, Repr

namespace GraphReduction

def text : GraphReduction → String
  | avg => "avg"
  | min => "min"
  | max => "max"
  | med => "med"

def ofText : String → Except Error GraphReduction
  | "avg" => .ok avg
  | "min" => .ok min
  | "max" => .ok max
  | "med" => .ok med
  | other => .error (.configuration (.graphReduction other))

end GraphReduction

/-- What a pass over a tree does at each directory it selects. -/
inductive RunMode where
  | execute
  | performance
  | graph
  deriving DecidableEq, Repr

def RunMode.text : RunMode → String
  | execute => "run"
  | performance => "performance"
  | graph => "graph"

/-- Which line of a log counts as a passed test. -/
inductive SuccessMarker where
  | matching
  | compiling
  | generating
  deriving DecidableEq, Repr

def SuccessMarker.forRun (graphsOnly compOnly : Bool) : SuccessMarker :=
  if graphsOnly then generating else if compOnly then compiling else matching

/-- Every option that shapes a session. -/
structure Settings where
  compiler : Option Path := none
  compopts : List String := []
  execopts : List String := []
  launchCmd : Option String := none
  logFile : Option Path := none
  memLeaks : Bool := false
  memLeaksLog : Option Path := none
  valgrind : Bool := false
  valgrindExe : Bool := false
  preexec : List Path := []
  prediff : List Path := []
  futuresMode : FuturesMode := .skip
  cleanOnly : Bool := false
  recurse : Bool := true
  performance : Bool := false
  perfLabel : String := "perf"
  performanceDescription : String := ""
  performanceConfigs : Option String := none
  compPerformance : Bool := false
  compPerformanceDescription : String := ""
  numTrials : Option Nat := none
  genGraphs : Bool := false
  graphsDispRange : Bool := true
  graphsGenDefault : GraphReduction := .avg
  startDate : Option String := none
  genGraphOpts : String := ""
  compOnly : Bool := false
  numLocales : Nat := 0
  maxLocales : Nat := 0
  multilocaleOnly : Bool := false
  noStdinRedirect : Bool := false
  stdinRedirect : Bool := false
  launcherTimeout : Option String := none
  chplHomeWarn : Bool := true
  progress : Bool := false
  testRoot : Option Path := none
  junitXml : Bool := false
  junitXmlFile : Option Path := none
  junitRemovePrefix : Option String := none
  respectSkipifs : Bool := false
  respectNotests : Bool := false
  deriving DecidableEq, Repr

/-- Options that a project sets for all its sessions. -/
structure ProjectDefaults where
  compopts : List String := []
  execopts : List String := []
  launchCmd : Option String := none
  preexec : List Path := []
  prediff : List Path := []
  numLocales : Option Nat := none
  deriving DecidableEq, Repr

namespace Settings

/-- Lists of the project come first, so that later options win where a tool sees an option twice;
single values of the project count only where none was given. -/
def applyDefaults (s : Settings) (d : ProjectDefaults) : Settings :=
  { s with
    compopts := d.compopts ++ s.compopts
    execopts := d.execopts ++ s.execopts
    preexec := d.preexec ++ s.preexec
    prediff := d.prediff ++ s.prediff
    launchCmd := s.launchCmd.or d.launchCmd
    numLocales := if s.numLocales = 0 then d.numLocales.getD 0 else s.numLocales }

/-- Options that fall back to a variable where they are not given. -/
def applyEnvironment (s : Settings) (e : Environment) : Settings :=
  { s with
    launchCmd := s.launchCmd.or (e.get? "CHPL_TEST_LAUNCHCMD")
    numTrials := s.numTrials.or
      ((e.get? "CHPL_TEST_NUM_TRIALS").bind fun v => Text.readCount (Text.trim v)) }

/-- Options that imply others turn them on. -/
def normalize (s : Settings) : Settings :=
  let performance := s.performance || s.performanceDescription != "" || s.perfLabel != "perf"
  { s with
    performance
    genGraphs := s.genGraphs || performance
    compPerformance := s.compPerformance || s.compPerformanceDescription != ""
    junitXml := s.junitXml || s.junitXmlFile.isSome }

def compoptsValue (s : Settings) : String :=
  (if s.performance then "--fast " else "") ++ "--cc-warnings" ++
    String.join (s.compopts.map fun o => " " ++ o)

def execoptsValue (s : Settings) (memLeaksLog : Option Path) : String :=
  String.intercalate " " s.execopts ++ (if s.memLeaks then " --memLeaks" else "") ++
    match memLeaksLog with
    | some log => " --memLeaksLog=" ++ log.text
    | none => ""

def trials (s : Settings) : Nat := s.numTrials.getD 1

def graphOpts (s : Settings) : String :=
  match s.performanceConfigs with
  | some configs => s.genGraphOpts ++ " --configs " ++ configs
  | none => s.genGraphOpts

/-- The ending of the files that mark performance tests. -/
def perfKeys (s : Settings) : String := s.perfLabel ++ "keys"

def graphsOnly (s : Settings) : Bool := s.genGraphs && !s.performance

def successMarker (s : Settings) : SuccessMarker := .forRun s.graphsOnly s.compOnly

/-- The passes over every directory, in order. -/
def directoryPasses (s : Settings) : List RunMode :=
  if s.performance then [.performance, .graph]
  else if s.genGraphs then [.graph]
  else [.execute]

end Settings

end Regression
