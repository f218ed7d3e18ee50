import Regression.Machine

namespace Regression

/-- Something to test, by its whole path without `.` and `..`. -/
inductive Target where
  | file (path : Path)
  | directory (path : Path)
  deriving DecidableEq, Repr

namespace Target

/-- What an argument names from the starting directory, if anything. -/
def classify (m : Machine) (argument cwd : Path) : Option Target :=
  let p := (cwd / argument.text).normalize
  if m.isDirectory p then some (directory p)
  else if m.isFile p then some (file p)
  else none

def file? : Target → Option Path
  | file p => some p
  | directory _ => none

def directory? : Target → Option Path
  | file _ => none
  | directory p => some p

end Target

end Regression
