import Regression.Command

namespace Regression

open Text (Bytes)

/-- What a script has done so far, the arguments it has now, and the status of its last
instruction. -/
structure Running where
  files : FileTree
  arguments : List String
  /-- What was written, the last first. -/
  written : List (Stream × Bytes) := []
  last : Nat := 0

namespace Running

def emit (r : Running) (s : Stream) (bytes : Bytes) : Running :=
  { r with written := (s, bytes) :: r.written, last := 0 }

def print (r : Running) (text : String) : Running := r.emit .output (Text.encode text)

/-- The instruction before did what it was to do. -/
def done (r : Running) : Running := { r with last := 0 }

/-- An instruction that fails with a complaint. -/
def fail (r : Running) (status : Nat) (complaint : String) : Running :=
  { r.emit .diagnostics (Text.encode (complaint ++ "\n")) with last := status }

/-- The first argument, or an empty word where there is none. -/
def argument (r : Running) : String := r.arguments.headD ""

/-- The end of a script. -/
def ended (r : Running) (status : Status) : Ended :=
  { written := r.written.reverse, status, files := r.files }

end Running

end Regression
