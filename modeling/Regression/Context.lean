import Regression.Environment
import Regression.Path

namespace Regression

/-- What every tool of a session is started with. -/
structure Context where
  environment : Environment
  utilDirectory : Path
  compiler : Path := ⟨""⟩
  tmpDirectory : Path
  invocationDirectory : Path
  deriving DecidableEq

namespace Context

/-- The variable that names the single test of an invocation. -/
def oneTestName : String := "CHPL_ONETEST"

/-- The two directories are exported; a single test left over from outside is dropped. -/
def create (environment : Environment) (utilDirectory tmpDirectory invocationDirectory : Path) :
    Context :=
  { environment :=
      ((environment.set "CHPL_TEST_UTIL_DIR" utilDirectory.text).set
        "CHPL_TEST_TMP_DIR" tmpDirectory.text).remove oneTestName
    utilDirectory, tmpDirectory, invocationDirectory }

def set (c : Context) (name value : String) : Context :=
  { c with environment := c.environment.set name value }

def get? (c : Context) (name : String) : Option String :=
  c.environment.get? name

/-- A helper shipped with the utilities. -/
def testUtil (c : Context) (name : String) : Path :=
  c.utilDirectory / "test" / name

/-- The context of one phase, with variables of its own. -/
def withVars (c : Context) (vars : List (String × String)) : Context :=
  { c with environment := c.environment.setAll vars }

/-- The environment of one invocation, for a whole directory or for a single test. -/
def scope (c : Context) : Option String → Environment
  | none => c.environment
  | some test => c.environment.set oneTestName test

/-- A path below the starting directory is shown from there. -/
def displayPath (c : Context) (p : Path) : String :=
  match p.below? c.invocationDirectory with
  | some rest => if rest.text.isEmpty then p.text else rest.text
  | none => p.text

end Context

end Regression
