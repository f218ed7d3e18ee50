import Regression.CommandLine.Option

namespace Regression.CommandLine

def Opt.Kind.Value : Opt.Kind → Type
  | .switch => Unit
  | .text => String
  | .path => Path
  | .count => Nat
  | .futuresMode => FuturesMode
  | .graphReduction => GraphReduction

/-- Why a value is refused: it is missing, or for a reason given in words. -/
inductive ValueFault where
  | missing
  | invalid (reason : String)
  deriving DecidableEq, Repr

/-- The largest number of 64 bits with a sign. -/
def wordLimit : Nat := 9223372036854775807

/-- Counts are read as numbers of 64 bits and then held to 32 bits without sign. -/
def readCount (s : String) : Except ValueFault Nat :=
  match Text.readInt (wordLimit + 1) wordLimit s with
  | .error fault => .error (.invalid fault.message)
  | .ok n =>
    if 0 ≤ n ∧ n ≤ Text.countLimit then .ok n.toNat
    else .error (.invalid (toString n ++ " is not in 0..=" ++ toString Text.countLimit))

def readPath (s : String) : Except ValueFault Path :=
  if s.isEmpty then .error .missing else .ok ⟨s⟩

def byReason {α : Type} : Except Error α → Except ValueFault α
  | .ok a => .ok a
  | .error e => .error (.invalid e.message)

def Opt.Kind.read : (k : Opt.Kind) → String → Except ValueFault k.Value
  | .switch, _ => .ok ()
  | .text, s => .ok s
  | .path, s => readPath s
  | .count, s => readCount s
  | .futuresMode, s => byReason (FuturesMode.ofText s)
  | .graphReduction, s => byReason (GraphReduction.ofText s)

/-- The settings chosen so far. The ways to choose a futures mode are kept apart until the end. -/
structure Choices where
  settings : Settings := {}
  futures : Bool := false
  futuresOnly : Bool := false
  futuresSkipIf : Bool := false
  futuresMode : Option FuturesMode := none
  targets : List Path := []

namespace Choices

def addExecopt (s : Settings) (v : String) : Settings := { s with execopts := s.execopts ++ [v] }

def addCompopt (s : Settings) (v : String) : Settings := { s with compopts := s.compopts ++ [v] }

def addPreexec (s : Settings) (v : Path) : Settings := { s with preexec := s.preexec ++ [v] }

def addPrediff (s : Settings) (v : Path) : Settings := { s with prediff := s.prediff ++ [v] }

def adjust (c : Choices) (f : Settings → Settings) : Choices :=
  { c with settings := f c.settings }

/-- Takes in one option with its value. Lists grow at their end. -/
def take (c : Choices) : (o : Opt) → o.kind.Value → Choices
  | .execopts, v => c.adjust fun s => addExecopt s v
  | .compiler, v => c.adjust fun s => { s with compiler := some v }
  | .launchcmd, v => c.adjust fun s => { s with launchCmd := some v }
  | .compopts, v => c.adjust fun s => addCompopt s v
  | .logfile, v => c.adjust fun s => { s with logFile := some v }
  | .memleaks, _ => c.adjust fun s => { s with memLeaks := true }
  | .memleakslog, v => c.adjust fun s => { s with memLeaksLog := some v }
  | .valgrind, _ => c.adjust fun s => { s with valgrind := true }
  | .valgrindexe, _ => c.adjust fun s => { s with valgrindExe := true }
  | .syspreexec, v => c.adjust fun s => addPreexec s v
  | .sysprediff, v => c.adjust fun s => addPrediff s v
  | .futures, _ => { c with futures := true }
  | .futuresonly, _ => { c with futuresOnly := true }
  | .futuresskipif, _ => { c with futuresSkipIf := true }
  | .futuresMode, v => { c with futuresMode := some v }
  | .cleanOnly, _ => c.adjust fun s => { s with cleanOnly := true }
  | .norecurse, _ => c.adjust fun s => { s with recurse := false }
  | .performance, _ => c.adjust fun s => { s with performance := true }
  | .perflabel, v => c.adjust fun s => { s with perfLabel := v }
  | .performanceDescription, v => c.adjust fun s => { s with performanceDescription := v }
  | .performanceConfigs, v => c.adjust fun s => { s with performanceConfigs := some v }
  | .compperformance, _ => c.adjust fun s => { s with compPerformance := true }
  | .compperformanceDescription, v => c.adjust fun s => { s with compPerformanceDescription := v }
  | .numtrials, v => c.adjust fun s => { s with numTrials := some v }
  | .genGraphs, _ => c.adjust fun s => { s with genGraphs := true }
  | .nodisplaygraphrange, _ => c.adjust fun s => { s with graphsDispRange := false }
  | .graphsgendefault, v => c.adjust fun s => { s with graphsGenDefault := v }
  | .startdate, v => c.adjust fun s => { s with startDate := some v }
  | .gengraphopts, v => c.adjust fun s => { s with genGraphOpts := v }
  | .compOnly, _ => c.adjust fun s => { s with compOnly := true }
  | .numlocales, v => c.adjust fun s => { s with numLocales := v }
  | .maxLocales, v => c.adjust fun s => { s with maxLocales := v }
  | .multilocaleOnly, _ => c.adjust fun s => { s with multilocaleOnly := true }
  | .nostdinredirect, _ => c.adjust fun s => { s with noStdinRedirect := true }
  | .stdinredirect, _ => c.adjust fun s => { s with stdinRedirect := true }
  | .launchertimeout, v => c.adjust fun s => { s with launcherTimeout := some v }
  | .noChplHomeWarn, _ => c.adjust fun s => { s with chplHomeWarn := false }
  | .progress, _ => c.adjust fun s => { s with progress := true }
  | .testRoot, v => c.adjust fun s => { s with testRoot := some v }
  | .junitXml, _ => c.adjust fun s => { s with junitXml := true }
  | .junitXmlFile, v => c.adjust fun s => { s with junitXmlFile := some v }
  | .junitRemovePrefix, v => c.adjust fun s => { s with junitRemovePrefix := some v }
  | .respectSkipifs, _ => c.adjust fun s => { s with respectSkipifs := true }
  | .respectNotests, _ => c.adjust fun s => { s with respectNotests := true }
  | .help, _ => c
  | .version, _ => c

/-- A mode given by its number wins over the switches, of which the narrowest wins. -/
def resolvedMode (c : Choices) : FuturesMode :=
  match c.futuresMode with
  | some mode => mode
  | none =>
    if c.futuresSkipIf then .skipIf
    else if c.futuresOnly then .only
    else if c.futures then .included
    else .skip

def resolved (c : Choices) : Settings × List Path :=
  ({ c.settings with futuresMode := c.resolvedMode }, c.targets)

end Choices

end Regression.CommandLine
