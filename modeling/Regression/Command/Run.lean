import Regression.Log

namespace Regression

namespace Command

/-- Starts a command and lets it end. A command that cannot start fails with code -1 and the
reason as its output. -/
def start (c : Command) : Job Ended := do
  let m ← get
  set { m with commands := c :: m.commands }
  match m.tools m.commands c m.directory m.files with
  | .ok ended =>
    modify fun m => { m with
      files := ended.files
      changes := { tool := some c, before := m.files, after := ended.files } :: m.changes }
    return ended
  | .error fault => throw (.command c.shown (-1) fault.message)

/-- The standard output of a command that exits with 0; any other end is an error that carries what
it printed. -/
def captureWith (c : Command) (showDiagnostics : Bool) : Job String := do
  let ended ← c.start
  if showDiagnostics then
    let text := Text.decodeLossy (ended.on .diagnostics)
    modify fun m => { m with diagnostics := m.diagnostics ++ text }
  let output := Text.decodeLossy (ended.on .output)
  if ended.status = .exited 0 then return output
  else throw (.command c.shown ended.status.code output)

def capture (c : Command) : Job String := c.captureWith true

/-- Drops what the command writes to its diagnostic stream. -/
def captureQuiet (c : Command) : Job String := c.captureWith false

/-- Logs every line of a command's two streams, joined, and answers its exit code. -/
def follow (c : Command) : Job Int := do
  let ended ← c.start
  for line in Text.rawLines ended.joined do
    note (Text.decodeLossy line)
  return ended.status.code

end Command

/-- The value of a job, or nothing where it fails. -/
def attempt {α : Type} (job : Job α) : Effect (Option α) := do
  match ← job.run with
  | .ok a => return some a
  | .error _ => return none

/-- The outcome of a job, for a caller that goes on either way. -/
def outcome {α : Type} (job : Job α) : Job (Except Error α) := ExceptT.lift job.run

end Regression
