import Regression.Command.Run
import Regression.Text.Lines

namespace Regression

/-- The toolchain's description of itself. -/
structure Toolchain where
  values : Environment

namespace Toolchain

/-- A line `NAME=value`, blanks around both dropped; the name starts with `CHPL_`. -/
def binding? (line : String) : Option (String × String) := do
  let (name, value) ← Text.cut? (Text.trim line) '='
  if Text.startsWith name "CHPL_" then some (Text.trim name, Text.trim value) else none

/-- Of several lines for one name the last one counts; other lines say nothing. -/
def parse (text : String) : Toolchain :=
  ⟨.ofList ((Text.lines text).filterMap binding?)⟩

/-- Names that the description leaves out are taken from the environment. -/
def withFallback (t : Toolchain) (e : Environment) : Toolchain :=
  let missing := e.bindings.filter fun b => Text.startsWith b.1 "CHPL_" && !t.values.contains b.1
  ⟨t.values.setAll missing⟩

def ofEnvironment (e : Environment) : Toolchain :=
  withFallback ⟨.empty⟩ e

/-- Asks the utilities for the full description. -/
def query (utilDirectory : Path) (e : Environment) : Job Toolchain := do
  let output ← Command.capture
    { program := (utilDirectory / "printchplenv").text
      arguments := ["--all", "--internal", "--simple"]
      environment := e }
  return (parse output).withFallback e

def get? (t : Toolchain) (name : String) : Option String :=
  t.values.get? name

/-- The first of several names that is set. -/
def firstOf (t : Toolchain) (names : List String) : String :=
  (names.findSome? t.get?).getD "none"

def comm (t : Toolchain) : String := t.firstOf ["CHPL_COMM"]

def commSubstrate (t : Toolchain) : String := t.firstOf ["CHPL_COMM_SUBSTRATE"]

def commSegment (t : Toolchain) : String := t.firstOf ["CHPL_GASNET_SEGMENT"]

def launcher (t : Toolchain) : String := t.firstOf ["CHPL_LAUNCHER"]

def networkAtomics (t : Toolchain) : String := t.firstOf ["CHPL_NETWORK_ATOMICS"]

def localeModel (t : Toolchain) : String := t.firstOf ["CHPL_LOCALE_MODEL"]

def llvm (t : Toolchain) : String := t.firstOf ["CHPL_LLVM"]

def tasks (t : Toolchain) : String := t.firstOf ["CHPL_TASKS"]

def targetMemory (t : Toolchain) : String := t.firstOf ["CHPL_TARGET_MEM", "CHPL_MEM"]

def re2 (t : Toolchain) : String := t.firstOf ["CHPL_RE2"]

def hostPlatform (t : Toolchain) : String := t.firstOf ["CHPL_HOST_PLATFORM"]

def targetPlatform (t : Toolchain) : String :=
  t.firstOf ["CHPL_TARGET_PLATFORM", "CHPL_HOST_PLATFORM"]

/-- The directory below `bin` that holds the compiler. -/
def hostBinSubdirectory (t : Toolchain) : String :=
  match t.get? "CHPL_HOST_BIN_SUBDIR" with
  | some s => s
  | none => t.hostPlatform ++ "-" ++ t.firstOf ["CHPL_HOST_ARCH"]

end Toolchain

end Regression
