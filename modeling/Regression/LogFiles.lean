import Regression.Log

namespace Regression

/-- The log and the summary of a session. They are written under names of the process and copied to
the names that all sessions share when the session ends; a log file asked for by name is written in
place. -/
structure LogFiles where
  logFile : Path
  tmpLogFile : Path
  summaryFile : Path
  tmpSummaryFile : Path
  deriving DecidableEq, Repr

namespace LogFiles

def withSummary (log tmpLog : Path) : LogFiles :=
  { logFile := log
    tmpLogFile := tmpLog
    summaryFile := ⟨log.text ++ ".summary"⟩
    tmpSummaryFile := ⟨tmpLog.text ++ ".summary"⟩ }

def resolve (logsDirectory : Path) (user platform : String) (process : Nat)
    (explicit : Option Path) (cwd : Path) : LogFiles :=
  match explicit with
  | some p => withSummary (cwd / p.text) (cwd / p.text)
  | none =>
    withSummary (logsDirectory / (user ++ "." ++ platform ++ ".log"))
      (logsDirectory / (user ++ "." ++ platform ++ ".pid" ++ toString process ++ ".log"))

/-- Checks that a log can be written and removes what an earlier session left. -/
def prepare (f : LogFiles) : Job Unit := do
  let directory := f.logFile.parent.getD ⟨"."⟩
  if !(← get).isDirectory directory then
    throw (.environment (.logFileDirectory directory))
  if (← get).isFile f.logFile then
    say ""
    say ("[Removing log file with duplicate name " ++ f.logFile.text ++ "]")
    keep fun t cwd => t.removeFile cwd f.logFile
  if (← get).isFile f.summaryFile then
    keep fun t cwd => t.removeFile cwd f.summaryFile

/-- Moves a file to its final name, where the names differ and the file is there. -/
def publishOne (source target : Path) : Job Unit := do
  if !source.same target && (← get).isFile source then
    keep fun t cwd => t.copyFile cwd source target
    keep fun t cwd => t.removeFile cwd source

def publish (f : LogFiles) : Job Unit := do
  publishOne f.tmpLogFile f.logFile
  publishOne f.tmpSummaryFile f.summaryFile

end LogFiles

end Regression
