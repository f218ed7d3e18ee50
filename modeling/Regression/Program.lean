import Regression.CommandLine.Parse
import Regression.Session

namespace Regression

namespace Program

/-- What is said before the message of an error that arose while the session was set up. -/
def setupFailure : String := "Failed to set up the test session: "

/-- Runs a session in the directory where the machine works. A missing prerequisite is told as it
was found; every other error goes to the diagnostic stream. -/
def perform (settings : Settings) (targets : List Path) (e : Environment) : Effect ExitCode := do
  let cwd := (← get).directory.path
  match ← (Session.create settings e cwd).run with
  | .error error => report setupFailure error
  | .ok session =>
    match ← (session.run targets).run with
    | .error error => report "" error
    | .ok outcome => return outcome.exitCode
where
  report (before : String) : Error → Effect ExitCode
    | .environment cause => do
      say cause.message
      return .environment
    | error => do
      complain ("Error: " ++ before ++ error.chain)
      return .failures

end Program

end Regression
