import Regression.Machine

namespace Regression

/-- Where everything of a session lies. -/
structure Layout where
  home : Path
  utilDirectory : Path
  testDirectory : Path
  logsDirectory : Path
  /-- Whether tests can be made from the language specification. -/
  specTests : Bool
  deriving DecidableEq, Repr

namespace Layout

/-- The home of the toolchain and the directory of its utilities. -/
def locateHome (e : Environment) : Job (Path × Path) := do
  let some text := e.get? "CHPL_HOME" | throw (.environment .homeUnset)
  let home : Path := ⟨text⟩
  if !(← get).isDirectory home then
    throw (.environment .homeNotDirectory)
  match e.get? "CHPL_TEST_UTIL_DIR" with
  | some util => return (home, ⟨util⟩)
  | none =>
    let util := home / "util"
    if !(← get).isDirectory util then
      throw (.environment (.noUtil util))
    return (home, util)

/-- The test tree: the one asked for, else the home's tests, else its examples, else the starting
directory; and whether it is the one that goes with the specification. -/
def chooseTests (m : Machine) (home : Path) (testRoot : Option Path) (cwd : Path) : Path × Bool :=
  match testRoot with
  | some root => (root, true)
  | none =>
    if m.isWritableDirectory (home / "test") then (home / "test", true)
    else if m.isWritableDirectory (home / "examples") then (home / "examples", false)
    else (cwd, false)

/-- The whole layout. The directory of the logs is made where there is none. -/
def discover (e : Environment) (testRoot : Option Path) (cwd : Path) : Job Layout := do
  let (home, utilDirectory) ← locateHome e
  let hasSpec := (← get).isThere (home / "spec")
  let (testDirectory, goesWithSpec) := chooseTests (← get) home testRoot cwd
  if !(← get).isWritableDirectory testDirectory then
    throw (.environment (.testDirectory testDirectory))
  let logsDirectory := testDirectory / "Logs"
  if !(← get).isDirectory logsDirectory then
    makeDirectories logsDirectory
  if !(← get).isWritableDirectory logsDirectory then
    throw (.environment (.logsDirectory logsDirectory))
  return { home, utilDirectory, testDirectory, logsDirectory
           specTests := hasSpec && goesWithSpec }

/-- A helper shipped with the utilities. -/
def testUtil (l : Layout) (name : String) : Path := l.utilDirectory / "test" / name

end Layout

end Regression
