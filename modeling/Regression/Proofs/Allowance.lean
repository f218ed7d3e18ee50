import Regression.Proofs.Markers
import Regression.Session

namespace Regression

/-- The commands that the tests of a session with such settings can ask for. -/
inductive Settings.Allows (o : Settings) : Command → Prop where
  | git (c : Context) (cwd : Path) (arguments : List String) :
    o.Allows { program := "git", arguments, environment := c.scope none, directory := some cwd }
  /-- What is asked of the machine itself. -/
  | machine (c : Context) {program : String} (arguments : List String)
    (h : program ∈ ["which", "valgrind", "uname"]) :
    o.Allows { program, arguments, environment := c.scope none }
  | toolchain (c : Context) :
    o.Allows
      { program := (c.utilDirectory / "printchplenv").text, arguments := ["--all", "--no-tidy"]
        environment := c.scope none }
  | commit (c : Context) (arguments : List String) (h : o.performance ∨ o.compPerformance) :
    o.Allows
      { program := (c.testUtil "computePerfStats").text, arguments, environment := c.scope none }
  | make (c : Context) (home : Path) (h : o.cleanOnly = false) :
    o.Allows
      { program := "make", arguments := ["spectests"], environment := c.scope none
        directory := some home }
  | cleaner (c : Context) (directory : Path) (test : Option String) :
    o.Allows (Runner.cleanCommand c directory test)
  | condition (c : Context) (directory script : Path) (h : o.cleanOnly = false) :
    o.Allows (Skip.question c directory script)
  | runner (c : Context) (runner directory : Path) (test : Option String)
    (h : o.cleanOnly = false) : o.Allows (Runner.command c runner directory test)
  | graphs (t : GraphTool) (arguments trailing : List String) (directory : Path)
    (h : o.performance ∨ o.genGraphs ∨ o.compPerformance) :
    o.Allows (t.command arguments trailing directory)
  | combine (k : CompilerPerf) (c : Context) (seconds : Nat) (h : o.compPerformance) :
    o.Allows (k.combineCommand c seconds)

/-- The commands that setup can ask for with a context, and the reports after it. -/
inductive Settings.Prepares (o : Settings) (c : Context) : Command → Prop where
  | git (cwd : Path) (arguments : List String) :
    o.Prepares c { program := "git", arguments, environment := c.scope none, directory := some cwd }
  | machine {program : String} (arguments : List String)
    (h : program ∈ ["which", "valgrind", "uname"]) :
    o.Prepares c { program, arguments, environment := c.scope none }
  | toolchain :
    o.Prepares c
      { program := (c.utilDirectory / "printchplenv").text, arguments := ["--all", "--no-tidy"]
        environment := c.scope none }
  | commit (arguments : List String) (h : o.performance ∨ o.compPerformance) :
    o.Prepares c
      { program := (c.testUtil "computePerfStats").text, arguments, environment := c.scope none }
  | make (home : Path) (h : o.cleanOnly = false) :
    o.Prepares c
      { program := "make", arguments := ["spectests"], environment := c.scope none
        directory := some home }

theorem Settings.Prepares.allows {o : Settings} {c : Context} {d : Command} (h : o.Prepares c d) :
    o.Allows d := by
  cases h with
  | git cwd arguments => exact .git c cwd arguments
  | machine arguments h => exact .machine c arguments h
  | toolchain => exact .toolchain c
  | commit arguments h => exact .commit c arguments h
  | make home h => exact .make c home h

namespace Phases

/-- Where the tests of a file run. -/
def place (file : Path) : Path := file.parent.getD ⟨"/"⟩

/-- The commands that a named file can have. -/
inductive AtFile (p : Phases) (file : Path) : Command → Prop where
  | cleaner : p.AtFile file (Runner.cleanCommand p.fileContext (place file) (some (Runner.nameOf file)))
  | runner (m : Machine) (h : p.settings.cleanOnly = false) :
    p.AtFile file (Runner.command p.fileContext (Runner.resolve m p.fileContext (place file))
      (place file) (some (Runner.nameOf file)))
  | graphs (arguments trailing : List String) (d : Path) (h : p.graphs.isSome) :
    p.AtFile file (p.tool.command arguments trailing d)

/-- The commands that the passes over a directory can ask for. -/
inductive AtDirectory (p : Phases) : Command → Prop where
  | cleaner (d : Path) : p.AtDirectory (Runner.cleanCommand p.directoryContext d none)
  | runner (m : Machine) (d : Path) (h : p.settings.cleanOnly = false) :
    p.AtDirectory
      (Runner.command p.directoryContext (Runner.resolve m p.directoryContext d) d none)
  | condition (d script : Path) (h : p.settings.cleanOnly = false) :
    p.AtDirectory (Skip.question p.directoryContext d script)
  | graphs (arguments trailing : List String) (d : Path) (h : p.graphs.isSome) :
    p.AtDirectory (p.tool.command arguments trailing d)

/-- The commands that can follow once all files and directories have been worked on. -/
inductive AtEnd (p : Phases) : Command → Prop where
  | combine {k : CompilerPerf} (hk : p.plan.compiler = some k) (seconds : Nat) :
    p.AtEnd (k.combineCommand p.context seconds)
  | graphs (arguments trailing : List String) (d : Path)
    (h : p.graphs.isSome ∨ p.plan.compiler.isSome) : p.AtEnd (p.tool.command arguments trailing d)

end Phases

end Regression
