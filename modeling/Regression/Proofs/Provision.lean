import Regression.Proofs.Traces

namespace Regression

/-- The markers are set aside for named files, unless they are to be respected. -/
def Settings.fileVariables (o : Settings) : List (String × String) :=
  [("CHPL_TEST_SINGLES", if o.respectSkipifs then "0" else "1"),
    ("CHPL_TEST_NOTESTS", if o.respectNotests then "0" else "1"),
    ("CHPL_TEST_FUTURES", "1")]

def Settings.directoryVariables (o : Settings) : List (String × String) :=
  [("CHPL_TEST_SINGLES", "0"), ("CHPL_TEST_NOTESTS", "0"),
    ("CHPL_TEST_FUTURES", o.futuresMode.value)]

/-- A tool that works in a directory, with variables laid over an environment. -/
structure Command.WorksIn (c : Command) (d : Path) (tool : String) (base : Environment)
    (vars : List (String × String)) : Prop where
  tool : c.tool = tool
  directory : c.directory = some d
  environment : base.Overlaid (("PWD", d.text) :: vars) c.environment

/-- A tool that has an environment as it is. -/
structure Command.Has (c : Command) (tool : String) (base : Environment) : Prop where
  tool : c.tool = tool
  environment : c.environment = base

/-- The single test that a command is told of. -/
def Command.single? (c : Command) : Option String := c.environment.get? Context.oneTestName

/-- What is started for a named file. -/
inductive ForFile (o : Settings) (base : Environment) (file : Path) (c : Command) : Prop where
  | cleaner (h : c.WorksIn (Phases.place file) "sub_clean" base o.fileVariables)
  | runner (h : c.WorksIn (Phases.place file) "sub_test" base
      ((Context.oneTestName, Runner.nameOf file) :: o.fileVariables))
  | graphs (h : c.Has "genGraphs" base)

/-- What is started for the directories. -/
inductive ForDirectory (o : Settings) (base : Environment) (c : Command) : Prop where
  | cleaner (d : Path) (h : c.WorksIn d "sub_clean" base o.directoryVariables)
  | runner (d : Path) (h : c.WorksIn d "sub_test" base o.directoryVariables)
  | condition (htool : c.tool = "testEnv") (h : base.Overlaid o.directoryVariables c.environment)
  | graphs (h : c.Has "genGraphs" base)

/-- What is started when all files and directories have been worked on. -/
inductive ForAll (base : Environment) (c : Command) : Prop where
  | combine (h : c.Has "combineCompPerfData" base)
  | graphs (h : c.Has "genGraphs" base)

/-- The tools of setup. -/
def preparingTools : List String :=
  ["git", "which", "valgrind", "uname", "printchplenv", "computePerfStats", "make"]

namespace Phases

variable {p : Phases} {file : Path} {c : Command}

theorem overlaid_file (p : Phases) :
    p.context.environment.Overlaid p.settings.fileVariables p.fileContext.environment := by
  have hflag : ∀ b : Bool, flag (!b) = if b then "0" else "1" := by decide
  have hset := Environment.overlaid_setAll p.context.environment
    [("CHPL_TEST_FUTURES", "1"), ("CHPL_TEST_NOTESTS", flag !p.settings.respectNotests),
      ("CHPL_TEST_SINGLES", flag !p.settings.respectSkipifs)]
  simp only [hflag] at hset
  rw [fileContext]
  simp only [hflag]
  exact hset

theorem overlaid_directory (p : Phases) : p.context.environment.Overlaid
    p.settings.directoryVariables p.directoryContext.environment :=
  Environment.overlaid_setAll p.context.environment _

theorem tool_command (p : Phases) (arguments trailing : List String) (d : Path) :
    (p.tool.command arguments trailing d).Has "genGraphs" p.context.environment :=
  ⟨Command.tool_join rfl (by decide) (by decide), rfl⟩

theorem cleaner_worksIn {c : Context} {d : Path} {base : Environment}
    {vars : List (String × String)} (h : base.Overlaid vars c.environment) (test : Option String) :
    (Runner.cleanCommand c d test).WorksIn d "sub_clean" base vars :=
  ⟨Command.tool_join (s := Runner.cleanerName) rfl (by decide) (by decide), rfl, h.set _ _⟩

/-- A directory's own runner has the name of the shared one. -/
theorem runner_worksIn {c : Context} {d : Path} {base : Environment}
    {vars : List (String × String)} {test : Option String}
    (h : base.Overlaid vars (c.scope test)) (m : Machine) :
    (Runner.command c (Runner.resolve m c d) d test).WorksIn d "sub_test" base vars := by
  have hname : ∃ above : Path, Runner.resolve m c d = above / Walk.runnerName := by
    simp only [Runner.resolve]
    split
    · exact ⟨d, rfl⟩
    · exact ⟨c.utilDirectory / "test", rfl⟩
  obtain ⟨above, hname⟩ := hname
  exact ⟨Command.tool_join (congrArg Path.text hname) (by decide) (by decide), rfl, h.set _ _⟩

theorem AtFile.provided (h : p.AtFile file c) :
    ForFile p.settings p.context.environment file c := by
  cases h with
  | cleaner => exact .cleaner (cleaner_worksIn p.overlaid_file _)
  | runner m => exact .runner (runner_worksIn (p.overlaid_file.set _ _) m)
  | graphs arguments trailing d => exact .graphs (p.tool_command arguments trailing d)

theorem AtDirectory.provided (h : p.AtDirectory c) :
    ForDirectory p.settings p.context.environment c := by
  cases h with
  | cleaner d => exact .cleaner d (cleaner_worksIn p.overlaid_directory none)
  | runner m d => exact .runner d (runner_worksIn p.overlaid_directory m)
  | condition d script =>
    exact .condition (Command.tool_join rfl (by decide) (by decide)) p.overlaid_directory
  | graphs arguments trailing d => exact .graphs (p.tool_command arguments trailing d)

theorem AtEnd.provided (h : p.AtEnd c) : ForAll p.context.environment c := by
  cases h with
  | combine hk seconds => exact .combine ⟨Command.tool_join rfl (by decide) (by decide), rfl⟩
  | graphs arguments trailing d => exact .graphs (p.tool_command arguments trailing d)

end Phases

theorem Settings.Prepares.tool {o : Settings} {c : Context} {d : Command} (h : o.Prepares c d) :
    d.tool ∈ preparingTools := by
  have hmachine : ∀ program ∈ ["which", "valgrind", "uname"],
      '/' ∉ program.toList ∧ program ≠ "" ∧ program ∈ preparingTools := by decide
  cases h with
  | git cwd arguments =>
    rw [Command.tool_single (s := "git") rfl (by decide) (by decide)]
    decide
  | machine arguments hprogram =>
    obtain ⟨hs, hf, hmem⟩ := hmachine _ hprogram
    rw [Command.tool_single rfl hs hf]
    exact hmem
  | toolchain =>
    rw [Command.tool_join (s := "printchplenv") rfl (by decide) (by decide)]
    decide
  | commit arguments =>
    rw [Command.tool_join (s := "computePerfStats") rfl (by decide) (by decide)]
    decide
  | make home =>
    rw [Command.tool_single (s := "make") rfl (by decide) (by decide)]
    decide

theorem Settings.Prepares.environment {o : Settings} {c : Context} {d : Command}
    (h : o.Prepares c d) : d.environment = c.environment := by
  cases h <;> rfl

theorem Settings.Preparing.provided {o : Settings} {d : Command} (h : o.Preparing d) :
    d.tool ∈ preparingTools ∧ d.single? = none := by
  obtain ⟨c, hone, hd⟩ := h
  exact ⟨hd.tool, by rw [Command.single?, hd.environment, hone]⟩

theorem Command.WorksIn.single {c : Command} {d : Path} {tool : String} {base : Environment}
    {vars : List (String × String)} (h : c.WorksIn d tool base vars)
    (hfresh : base.get? Context.oneTestName = none) :
    c.single? = vars.lookup Context.oneTestName := by
  have hplace : Context.oneTestName ≠ "PWD" := by decide
  rw [single?, h.environment, hfresh, Option.or_none, Environment.lookup_binding, if_neg hplace]

theorem Command.Has.single {c : Command} {tool : String} {base : Environment} (h : c.Has tool base)
    (hfresh : base.get? Context.oneTestName = none) : c.single? = none := by
  rw [single?, h.environment, hfresh]

section Single

variable {o : Settings} {base : Environment} {c : Command}

/-- The runner of a file is told of it, and nothing else that is started for the file is. -/
theorem ForFile.single {file : Path} (h : ForFile o base file c)
    (hfresh : base.get? Context.oneTestName = none) :
    c.single? = if c.tool = "sub_test" then some (Runner.nameOf file) else none := by
  cases h with
  | cleaner h =>
    rw [h.single hfresh, h.tool]
    rfl
  | runner h =>
    rw [h.single hfresh, h.tool]
    rfl
  | graphs h =>
    rw [h.single hfresh, h.tool]
    rfl

theorem ForDirectory.single (h : ForDirectory o base c)
    (hfresh : base.get? Context.oneTestName = none) : c.single? = none := by
  cases h with
  | cleaner d h => exact h.single hfresh
  | runner d h => exact h.single hfresh
  | condition htool h =>
    rw [Command.single?, h, hfresh]
    rfl
  | graphs h => exact h.single hfresh

theorem ForAll.single (h : ForAll base c) (hfresh : base.get? Context.oneTestName = none) :
    c.single? = none := by
  cases h with
  | combine h => exact h.single hfresh
  | graphs h => exact h.single hfresh

end Single

theorem Segments.exists_mem {ρ : Type} {S : ρ → Command → Prop} {xs : List ρ}
    {asked : List Command} (h : Segments S xs asked) {c : Command} (hc : c ∈ asked) :
    ∃ x ∈ xs, S x c := by
  induction h with
  | stop xs => cases hc
  | next hhere _ ih =>
    obtain hc | hc := List.mem_append.mp hc
    · exact ⟨_, List.mem_cons_self, hhere c hc⟩
    · obtain ⟨x, hx, hS⟩ := ih hc
      exact ⟨x, List.mem_cons_of_mem _ hx, hS⟩

/-- What the phases start, over the environment of their context. -/
structure Parts.Provided (r : Parts) (o : Settings) (files : List Path) (base : Environment) :
    Prop where
  fresh : base.get? Context.oneTestName = none
  files : Segments (ForFile o base) files r.files
  directories : ∀ c ∈ r.directories, ForDirectory o base c
  conclusion : ∀ c ∈ r.conclusion, ForAll base c

theorem Phases.Trace.provided {p : Phases} {files : List Path} {m : Machine} {r : Parts}
    (hfresh : p.context.environment.get? Context.oneTestName = none) (h : p.Trace files m r) :
    r.Provided p.settings files p.context.environment where
  fresh := hfresh
  files := h.files.mono fun _ _ hc => hc.provided
  directories c hc := (h.directories c hc).provided
  conclusion c hc := (h.conclusion c hc).provided

/-- The runners of named files are those that are told of a single test. -/
theorem Parts.Provided.alone {r : Parts} {o : Settings} {files : List Path} {base : Environment}
    (h : r.Provided o files base) {c : Command} (hc : c ∈ r.tests) :
    c.single? ≠ none ↔ c ∈ r.files ∧ c.tool = "sub_test" := by
  have hfile : c ∈ r.files → ∃ file,
      c.single? = if c.tool = "sub_test" then some (Runner.nameOf file) else none := by
    intro hmem
    obtain ⟨file, -, hfile⟩ := h.files.exists_mem hmem
    exact ⟨file, hfile.single h.fresh⟩
  constructor
  · intro hsingle
    have hmem : c ∈ r.files := by
      rcases List.mem_append.mp hc with hmem | hmem
      · exact hmem
      · rcases List.mem_append.mp hmem with hmem | hmem
        · exact absurd ((h.directories c hmem).single h.fresh) hsingle
        · exact absurd ((h.conclusion c hmem).single h.fresh) hsingle
    obtain ⟨file, hone⟩ := hfile hmem
    refine ⟨hmem, ?_⟩
    by_contra hother
    rw [if_neg hother] at hone
    exact hsingle hone
  · rintro ⟨hmem, htool⟩
    obtain ⟨file, hone⟩ := hfile hmem
    rw [hone, if_pos htool]
    exact Option.some_ne_none _

namespace Session

variable {s : Session}

/-- The machine on which the phases of a session begin, and the context that setup has made for
them. -/
def Arrives (s : Session) (targets : List Path) (m : Machine) (p : Phases) (files : List Path)
    (m' : Machine) : Prop :=
  ∃ scratch m₁ sorted m₂ made m₃ roots, s.Begins m scratch m₁ ∧
    (s.sortTargets targets).on m₁ = (.ok sorted, m₂) ∧
    (s.setup.run (s.created scratch)).on m₂ = (.ok made, m₃) ∧ p = s.phases made ∧
    files = ((targets.map s.named).filter fun f => !m₁.isDirectory f && m₁.isFile f) ∧
    (s.prelude made files (sorted.filterMap Target.directory?)).on m₃ = (.ok roots, m')

/-- All that a session starts, and what it gives to it. -/
structure Provides (s : Session) (targets : List Path) (m : Machine) (r : Parts) : Prop where
  started : ((s.run targets).on m).2.started = m.started ++ r.all
  setup : ∀ c ∈ r.setup, c.tool ∈ preparingTools ∧ c.single? = none
  /-- Without a context nothing is tested. -/
  tests : r.tests = [] ∨ ∃ p files m', s.Arrives targets m p files m' ∧
    ((p.singles files).on m').2.started = m'.started ++ r.files ∧
    r.Provided s.settings files p.context.environment
  /-- The variable for a single test is there for exactly the runners of named files. -/
  alone : ∀ c ∈ r.setup ++ r.tests, c.single? ≠ none ↔ c ∈ r.files ∧ c.tool = "sub_test"
  /-- The converter works on what the session has left, in the environment that it was given. -/
  conversion : ∀ c ∈ r.conversion, s.settings.junitXml = true ∧ c = s.junitCommand

/-- What is prepared and what is tested. -/
theorem Trace.provides {targets : List Path} {m : Machine} {r : Parts} (h : s.Trace targets m r) :
    (∀ c ∈ r.setup, s.settings.Preparing c) ∧ (r.tests = [] ∨
      ∃ p files m', s.Arrives targets m p files m' ∧
        ((p.singles files).on m').2.started = m'.started ++ r.files ∧
        r.Provided s.settings files p.context.environment) := by
  rcases h.works with hempty | ⟨scratch, m₁, sorted, m₂, hbegins, hsort, hsetup, htests⟩
  · obtain ⟨hsetup, htests⟩ := List.append_eq_nil_iff.mp hempty
    rw [hsetup]
    exact ⟨nofun, .inl htests⟩
  · refine ⟨hsetup, htests.imp id ?_⟩
    rintro ⟨made, m₃, roots, m₄, hmade, hfresh, hroots, htrace⟩
    have harrives : s.Arrives targets m (s.phases made) (sorted.filterMap Target.file?) m₄ :=
      ⟨scratch, m₁, sorted, m₂, made, m₃, roots, hbegins, hsort, hmade, rfl,
        (sortTargets_ok hsort).files, hroots⟩
    exact ⟨_, _, m₄, harrives, htrace.singles, htrace.provided hfresh.oneTest⟩

/-- Also a session that fails, or whose tools fail. -/
theorem run_provides (s : Session) (targets : List Path) (m : Machine) :
    ∃ r, s.Provides targets m r := by
  obtain ⟨r, htrace⟩ := s.run_trace targets m
  obtain ⟨hpreparing, htests⟩ := htrace.provides
  have hsetup : ∀ c ∈ r.setup, c.tool ∈ preparingTools ∧ c.single? = none := fun c hc =>
    (hpreparing c hc).provided
  refine ⟨r, htrace.started, hsetup, htests, ?_, htrace.conversion⟩
  intro c hc
  rcases List.mem_append.mp hc with hc | hc
  · obtain ⟨htool, hnone⟩ := hsetup c hc
    have hother : c.tool ≠ "sub_test" := by
      intro hsub
      rw [hsub] at htool
      exact absurd htool (by decide)
    simp [hnone, hother]
  · rcases htests with hempty | ⟨p, files, m', -, -, hprovided⟩
    · rw [hempty] at hc
      cases hc
    · exact hprovided.alone hc

end Session

end Regression
