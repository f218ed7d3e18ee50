import Regression.Fault

namespace Regression

inductive ScriptRole where
  | preexec
  | prediff
  deriving DecidableEq, Repr

def ScriptRole.text : ScriptRole → String
  | preexec => "preexec"
  | prediff => "prediff"

/-- What makes a whole run meaningless. -/
inductive Fatal where
  | noRunner (runner : Path) (detail : Option String)
  | noCompiler (compiler : Path)
  | noScript (role : ScriptRole) (script : Path)
  | noValgrind
  | valgrindTasks
  | valgrindMemory
  | valgrindExpressions
  | specTests (home : Path)
  /-- Raised by whoever handles a directory. -/
  | raised (message : String)
  deriving DecidableEq, Repr

def Fatal.message : Fatal → String
  | noRunner runner none => "Cannot find or execute runner: " ++ runner.text
  | noRunner runner (some detail) =>
    "Cannot find or execute runner: " ++ runner.text ++ " (" ++ detail ++ ")"
  | noCompiler compiler => "Cannot find or execute compiler: " ++ compiler.text
  | noScript role script =>
    "Cannot find or execute system-wide " ++ role.text ++ ": " ++ script.text
  | noValgrind => "Could not find valgrind."
  | valgrindTasks => "valgrind requires tasks=fifo - try quickstart"
  | valgrindMemory => "valgrind requires mem=cstdlib - try quickstart"
  | valgrindExpressions => "valgrind requires re2=none or re2 built with CHPL_RE2_VALGRIND_SUPPORT"
  | specTests home =>
    "Failed to generate Spec tests. Run 'make spectests' in " ++ home.text ++ " for more info"
  | raised message => message

/-- A missing prerequisite, found before there is a log. -/
inductive Prerequisite where
  | homeUnset
  | homeNotDirectory
  | noUtil (directory : Path)
  | testDirectory (directory : Path)
  | logsDirectory (directory : Path)
  | logFileDirectory (directory : Path)
  deriving DecidableEq, Repr

def Prerequisite.message : Prerequisite → String
  | homeUnset => "Error: CHPL_HOME is not set."
  | homeNotDirectory => "Error: CHPL_HOME must be a legal directory."
  | noUtil directory => "Error: Cannot find " ++ directory.text ++ "."
  | testDirectory directory => "Cannot write to test directory " ++ directory.text
  | logsDirectory directory => "Cannot write to Logs directory " ++ directory.text
  | logFileDirectory directory =>
    "[Permission denied for log_file directory: " ++ directory.text ++ "]"

/-- What a configured value or file has wrong. -/
inductive Misconfiguration where
  | futuresMode (text : String)
  | graphReduction (text : String)
  | defaults (file : Path)
  | conditionHelper (helper : Path)
  deriving DecidableEq, Repr

def Misconfiguration.message : Misconfiguration → String
  | futuresMode text => "invalid futures mode '" ++ text ++ "', expected 0 to 3"
  | graphReduction text =>
    "invalid graph reduction '" ++ text ++ "', expected avg, min, max or med"
  | defaults file => "Failed to parse " ++ file.text ++ ": not project defaults"
  | conditionHelper helper => "cannot execute " ++ helper.text

/-- Why an operation of a session fails. -/
inductive Error where
  | system (fault : Fault)
  | configuration (cause : Misconfiguration)
  | fatal (cause : Fatal)
  | environment (cause : Prerequisite)
  /-- A command that ended badly, or with code -1 one that could not start. -/
  | command (shown : String) (code : Int) (output : String)
  | logOpen (file : Path) (fault : Fault)
  | logWrite (file : Path) (fault : Fault)
  deriving DecidableEq, Repr

namespace Error

def message : Error → String
  | system fault => "IO error: " ++ fault.message
  | configuration cause => "Configuration error: " ++ cause.message
  | fatal cause => cause.message
  | environment cause => cause.message
  | command shown code _ =>
    "Command '" ++ shown ++ "' returned non-zero exit status " ++ toString code
  | logOpen file fault => "Log error: cannot open log file " ++ file.text ++ ": " ++ fault.message
  | logWrite file fault => "Log error: fatal error writing " ++ file.text ++ ": " ++ fault.message

/-- The message, followed by the fault beneath it where there is one. -/
def chain : Error → String
  | system fault => (system fault).message ++ ": " ++ fault.message
  | e => e.message

end Error

end Regression
