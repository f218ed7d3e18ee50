import Regression.Proofs.Lasting

namespace Regression

/-- A context whose tools keep their own files in a directory. -/
def Context.Tmp (tmp : Path) (c : Context) : Prop := c.tmpDirectory = tmp

/-- What setup takes neither from a machine nor from the context that it fills in, where the commands
that it asks for with such a context are allowed. No step of it provides the variable that names a
single test. -/
structure Furnishing (tmp : Path) (A : Command → Prop) (o : Settings) (Q : Context → Prop)
    (P : Machine → Prop) : Prop extends Lasting tmp A P where
  tmp : ∀ c, Q c → c.tmpDirectory = tmp
  set : ∀ c name value, name ≠ Context.oneTestName → Q c → Q (c.set name value)
  compiler : ∀ c path, Q c → Q { c with compiler := path }
  asks : ∀ c d, Q c → o.Prepares c d → A d

/-- The line by which the log tells whether tests measure performance. -/
def Settings.performanceLine (o : Settings) : String :=
  "[performance tests: " ++ Setup.switchText o.performance ++ "]"

/-- What is told and exported about the measuring besides. -/
def Setup.measuring (s : Setup) : Arranging Unit := do
  let o := s.settings
  if o.performance then
    provide "CHPL_TEST_PERF" "on"
    if o.perfLabel != "perf" then
      note ("[performance label: " ++ o.perfLabel ++ "]")
    provide "CHPL_TEST_PERF_LABEL" o.perfLabel
  note ("[compiler performance tests: " ++ switchText o.compPerformance ++ "]")
  if o.compPerformance then
    provide "CHPL_TEST_COMP_PERF" "on"
  note ("[number of trials: " ++ toString o.trials ++ "]")
  note ("[performance graph generation: " ++ switchText o.genGraphs ++ "]")
  if o.genGraphs then
    note ("[performance graph ranges: " ++ switchText o.graphsDispRange ++ "]")
    note ("[performance graph data reduction: " ++ o.graphsGenDefault.text ++ "]")

theorem Setup.performanceFlags_eq (s : Setup) : s.performanceFlags = (do
    note s.settings.performanceLine
    s.measuring) := rfl

namespace Furnishing

variable {tmp : Path} {A : Command → Prop} {o : Settings} {Q : Context → Prop} {P : Machine → Prop}
  {s : Setup}

/-- A step of setup. -/
abbrev Arranges {α : Type} (Q : Context → Prop) (P : Machine → Prop) (x : Arranging α) : Prop :=
  Threaded.Stays P Q x

theorem notes (h : Furnishing tmp A o Q P) (text : String) :
    Arranges Q P (liftM (Regression.note text)) :=
  Threaded.Keeps.lift (h.stays_note text)

theorem saying (h : Furnishing tmp A o Q P) (line : String) :
    Arranges Q P (liftM (liftM (Regression.say line) : Job Unit)) :=
  Threaded.Keeps.lift (Job.Keeps.lift (h.say line))

theorem machine : Arranges Q P (getThe Machine) := Threaded.Keeps.lift Job.Keeps.get

theorem provide (h : Furnishing tmp A o Q P) {name : String} (hname : name ≠ Context.oneTestName)
    (value : String) : Arranges Q P (Setup.provide name value) :=
  Threaded.Keeps.modify fun c hc => h.set c name value hname hc

theorem bound (name : String) : Arranges Q P (Setup.bound? name) :=
  Threaded.Keeps.get.after fun _ => Threaded.Keeps.given _

theorem filled (name : String) : Arranges Q P (Setup.filled name) :=
  Threaded.Keeps.get.after fun _ => Threaded.Keeps.given _

theorem git (h : Furnishing tmp A o Q P) (cwd : Path) (arguments : List String) :
    Arranges Q P (Setup.git cwd arguments) := by
  unfold Setup.git
  refine Threaded.Keeps.get.bind fun c hc => ?_
  have hask := h.captureQuiet (h.asks c _ hc (.git cwd arguments))
  exact (Threaded.Keeps.lift (Job.Keeps.lift hask)).after fun _ => Threaded.Keeps.given _

theorem firstLineOf (h : Furnishing tmp A o Q P) {program : String}
    (hp : program ∈ ["which", "valgrind", "uname"]) (arguments : List String) :
    Arranges Q P (Setup.firstLineOf program arguments) := by
  unfold Setup.firstLineOf
  refine Threaded.Keeps.get.bind fun c hc => ?_
  have hask := h.captureQuiet (h.asks c _ hc (.machine arguments hp))
  exact (Threaded.Keeps.lift (Job.Keeps.lift hask)).after fun _ => Threaded.Keeps.given _

theorem optionVariables (h : Furnishing tmp A o Q P) : Arranges Q P s.optionVariables := by
  unfold Setup.optionVariables
  extract_lets o leaksLog last trials timeout stdin compOnly leaks
  clear_value leaksLog
  have hlast : ∀ u, Arranges Q P (last u) := fun _ => Threaded.Keeps.given _
  have htrials : ∀ u, Arranges Q P (trials u) := by
    intro u
    refine (h.provide (by decide) _).after fun _ => ?_
    split
    · exact (h.provide (by decide) _).after hlast
    · exact hlast ()
  have htimeout : ∀ u, Arranges Q P (timeout u) := by
    intro u
    simp only [timeout]
    split
    · exact (h.provide (by decide) _).after htrials
    · exact htrials ()
  have hstdin : ∀ u, Arranges Q P (stdin u) := by
    intro u
    simp only [stdin]
    split
    · refine (h.provide (by decide) _).after fun _ => ?_
      split
      · exact (h.provide (by decide) _).after htimeout
      · exact htimeout ()
    · exact htimeout ()
  have hcompOnly : ∀ u, Arranges Q P (compOnly u) := fun u =>
    Threaded.Keeps.whether (h.provide (by decide) _) (hstdin u)
  have hleaks : ∀ u, Arranges Q P (leaks u) := by
    intro u
    simp only [leaks]
    split
    · refine machine.after fun m => ?_
      split
      · refine (h.notes _).after fun _ => ?_
        exact (Threaded.Keeps.lift (h.removeFile _)).after hcompOnly
      · exact hcompOnly ()
    · exact hcompOnly ()
  exact Threaded.Keeps.whether (h.provide (by decide) _) (hleaks ())

theorem valgrind (h : Furnishing tmp A o Q P) : Arranges Q P s.valgrind := by
  unfold Setup.valgrind
  extract_lets o quiet threads
  have hquiet : ∀ u, Arranges Q P (quiet u) := by
    intro u
    refine (h.provide (by decide) _).after fun _ => ?_
    split
    · exact Threaded.Keeps.given _
    · exact Threaded.Keeps.throw _ _
  have hthreads : ∀ u, Arranges Q P (threads u) := by
    intro u
    refine Threaded.Keeps.either ?_ (Threaded.Keeps.given _)
    refine (bound _).after fun value => ?_
    split
    · exact (h.provide (by decide) _).after hquiet
    · exact (h.notes _).after hquiet
  split
  · refine (h.notes _).after fun _ => ?_
    refine (h.firstLineOf (by decide) _).after fun binary => ?_
    split
    · refine (h.firstLineOf (by decide) _).after fun version => ?_
      refine (h.notes _).after fun _ => ?_
      refine (h.notes _).after fun _ => ?_
      refine (h.provide (by decide) _).after fun _ => ?_
      exact (h.provide (by decide) _).after hthreads
    · exact (Threaded.Keeps.throw _ fun _ => True).after hthreads
  · refine (h.provide (by decide) _).after fun _ => ?_
    split
    · refine (h.notes _).after fun _ => ?_
      exact (h.provide (by decide) _).after hthreads
    · refine (h.notes _).after fun _ => ?_
      exact (h.provide (by decide) _).after hthreads

theorem general (h : Furnishing tmp A o Q P) : Arranges Q P s.general := by
  unfold Setup.general
  extract_lets rest
  have hrest : ∀ u, Arranges Q P (rest u) := by
    intro u
    refine (h.notes _).after fun _ => ?_
    refine (h.notes _).after fun _ => ?_
    refine (h.notes _).after fun _ => ?_
    refine (h.notes _).after fun _ => ?_
    refine (h.notes _).after fun _ => ?_
    exact (h.notes _).after fun _ => h.valgrind
  refine machine.after fun m => ?_
  refine (h.notes _).after fun _ => ?_
  refine (h.git _ _).after fun branch => ?_
  refine (h.git _ _).after fun commit => ?_
  refine (h.notes _).after fun _ => ?_
  refine machine.after fun m' => ?_
  split
  · exact (h.saying _).after hrest
  · exact hrest ()

theorem measuring (h : Furnishing tmp A o Q P) : Arranges Q P s.measuring := by
  unfold Setup.measuring
  extract_lets o trials compPerformance label
  have htrials : ∀ u, Arranges Q P (trials u) := by
    intro u
    refine (h.notes _).after fun _ => ?_
    refine (h.notes _).after fun _ => ?_
    refine Threaded.Keeps.either ?_ (Threaded.Keeps.given _)
    exact (h.notes _).after fun _ => h.notes _
  have hcomp : ∀ u, Arranges Q P (compPerformance u) := fun u =>
    (h.notes _).after fun _ => Threaded.Keeps.whether (h.provide (by decide) _) (htrials u)
  have hlabel : ∀ u, Arranges Q P (label u) := fun _ => (h.provide (by decide) _).after hcomp
  split
  · refine (h.provide (by decide) _).after fun _ => ?_
    split
    · exact (h.notes _).after hlabel
    · exact hlabel ()
  · exact hcomp ()

theorem performanceFlags (h : Furnishing tmp A o Q P) : Arranges Q P s.performanceFlags := by
  rw [Setup.performanceFlags_eq]
  exact (h.notes _).after fun _ => h.measuring

theorem programs (h : Furnishing tmp A o Q P) (execopts : String) : Arranges Q P (s.programs execopts) := by
  unfold Setup.programs
  extract_lets o compiler launchCmd rest
  have hrest : ∀ u, Arranges Q P (rest u) := by
    intro u
    refine (h.notes _).after fun _ => ?_
    refine Threaded.Keeps.after (Threaded.Keeps.modify fun c hc => h.compiler c _ hc) fun _ => ?_
    refine (h.notes _).after fun _ => ?_
    refine (h.provide (by decide) _).after fun _ => ?_
    refine (h.notes _).after fun _ => ?_
    refine (h.provide (by decide) _).after fun _ => ?_
    refine (h.notes _).after fun _ => ?_
    exact Threaded.Keeps.get.after fun _ => h.provide (by decide) _
  refine machine.after fun m => ?_
  split
  · exact (Threaded.Keeps.throw _ fun _ => True).after hrest
  · exact hrest ()

theorem configuration (h : Furnishing tmp A o Q P) : Arranges Q P s.configuration := by
  unfold Setup.configuration
  refine (h.notes _).after fun _ => ?_
  refine (h.provide (by decide) _).after fun _ => ?_
  refine (h.provide (by decide) _).after fun _ => ?_
  refine (h.provide (by decide) _).after fun _ => ?_
  refine (h.notes _).after fun _ => ?_
  refine (h.provide (by decide) _).after fun _ => ?_
  refine (h.notes _).after fun _ => ?_
  refine (h.provide (by decide) _).after fun _ => ?_
  refine (h.provide (by decide) _).after fun _ => ?_
  exact h.provide (by decide) _

theorem launching (h : Furnishing tmp A o Q P) (launcher : String) :
    Arranges Q P (Setup.launching launcher) := by
  unfold Setup.launching
  extract_lets queued timeout
  have hqueued : ∀ u, Arranges Q P (queued u) := fun _ =>
    Threaded.Keeps.either (h.provide (by decide) _) (Threaded.Keeps.given _)
  have htimeout : ∀ u, Arranges Q P (timeout u) := by
    intro u
    refine (filled _).after fun set => ?_
    refine (filled _).after fun unwanted => ?_
    exact Threaded.Keeps.either (Threaded.Keeps.whether (h.provide (by decide) _) (hqueued u))
      (Threaded.Keeps.given _)
  refine (filled _).after fun redirected => ?_
  refine (filled _).after fun forced => ?_
  split
  · refine (h.saying _).after fun _ => ?_
    exact (h.provide (by decide) _).after htimeout
  · exact htimeout ()

theorem locales (h : Furnishing tmp A o Q P) : Arranges Q P s.locales := by
  unfold Setup.locales
  extract_lets o comm count multilocale most
  have hmultilocale : ∀ u, Arranges Q P (multilocale u) := fun _ =>
    Threaded.Keeps.either (Threaded.Keeps.either (h.provide (by decide) _) (h.notes _))
      (Threaded.Keeps.given _)
  have hmost : ∀ u, Arranges Q P (most u) := by
    intro u
    refine (h.provide (by decide) _).after fun _ => ?_
    split
    · exact (h.notes _).after hmultilocale
    · refine (h.notes _).after fun _ => ?_
      exact (h.provide (by decide) _).after hmultilocale
  split <;> exact (h.notes _).after hmost

theorem systemScripts (h : Furnishing tmp A o Q P) (cwd : Path) (role : ScriptRole) (scripts : List Path) :
    (Setup.systemScripts cwd role scripts).Stays P := by
  induction scripts with
  | nil => exact Job.Keeps.given _
  | cons script rest ih =>
    rw [Setup.systemScripts]
    refine Job.Keeps.get.after fun m => ?_
    refine Job.Keeps.whether (Job.Keeps.throw _ fun _ => True) ?_
    refine (h.stays_note _).after fun _ => ?_
    exact ih.after fun _ => Job.Keeps.given _

theorem systemWide (h : Furnishing tmp A o Q P) : Arranges Q P s.systemWide := by
  unfold Setup.systemWide
  extract_lets o rest
  have hrest : ∀ u, Arranges Q P (rest u) := by
    intro u
    refine (Threaded.Keeps.lift (h.systemScripts _ _ _)).after fun asked => ?_
    exact Threaded.Keeps.either (h.provide (by decide) _) (Threaded.Keeps.given _)
  split
  · refine (Threaded.Keeps.lift (h.systemScripts _ _ _)).after fun scripts => ?_
    exact (h.provide (by decide) _).after hrest
  · exact hrest ()

theorem executables (h : Furnishing tmp A o Q P) (execopts : String) :
    Arranges Q P (s.executables execopts) := by
  unfold Setup.executables
  refine (h.programs execopts).after fun _ => ?_
  refine h.configuration.after fun _ => ?_
  refine (h.launching _).after fun _ => ?_
  exact h.locales.after fun _ => h.systemWide

theorem perfTestName (h : Furnishing tmp A o Q P) : Arranges Q P Setup.perfTestName := by
  unfold Setup.perfTestName
  refine (bound _).after fun name => ?_
  split
  · exact Threaded.Keeps.given _
  · refine Threaded.Keeps.get.after fun c => ?_
    split
    · exact Threaded.Keeps.given _
    · exact (h.firstLineOf (by decide) _).after fun _ => Threaded.Keeps.given _

theorem planGraphs (h : Furnishing tmp A o Q P) : Arranges Q P s.planGraphs := by
  unfold Setup.planGraphs
  refine h.perfTestName.after fun name => ?_
  refine Threaded.Keeps.get.after fun c => ?_
  extract_lets description rest directory
  have hrest : ∀ perfDirectory, Arranges Q P (rest perfDirectory) := fun _ =>
    Threaded.Keeps.whether (h.provide (by decide) _) (Threaded.Keeps.given _)
  split
  · exact (Threaded.Keeps.given _).after hrest
  · refine (h.provide (by decide) _).after fun _ => ?_
    refine (h.notes _).after fun _ => ?_
    exact (Threaded.Keeps.given _).after hrest

/-- The timings lie below the directory of the tools. -/
theorem planCompiler (h : Furnishing tmp A o Q P) :
    Threaded.Keeps P Q s.planCompiler fun k => k.tempDatDirectory = timings tmp := by
  unfold Setup.planCompiler
  refine h.perfTestName.after fun name => ?_
  refine (bound _).after fun directory => ?_
  extract_lets rest default
  have hrest : ∀ datDirectory, Threaded.Keeps P Q (rest datDirectory) fun k =>
      k.tempDatDirectory = timings tmp := by
    intro datDirectory
    refine Threaded.Keeps.get.bind fun c hc => ?_
    rw [h.tmp c hc]
    refine (Threaded.Keeps.lift (h.startTimings datDirectory _)).bind fun k hk => ?_
    exact (h.provide (by decide) _).after fun _ => Threaded.Keeps.pure hk
  split
  · exact (Threaded.Keeps.given _).after hrest
  · refine (h.notes _).after fun _ => ?_
    exact (Threaded.Keeps.given _).after hrest

/-- The commit is recorded where there is performance data. -/
theorem commit_prepared {plan : PerfPlan} {directory : Path}
    (hdirectory : Setup.commitDirectory o plan = some directory) (c : Context)
    (arguments : List String) :
    o.Prepares c
      { program := (c.testUtil "computePerfStats").text, arguments, environment := c.scope none } := by
  apply Settings.Prepares.commit
  unfold Setup.commitDirectory at hdirectory
  split at hdirectory
  · next hperf => exact .inl hperf
  · split at hdirectory
    · next hcomp => exact .inr hcomp
    · cases hdirectory

theorem performanceDirectories (h : Furnishing tmp A s.settings Q P) :
    Threaded.Keeps P Q s.performanceDirectories (Lasting.Planned tmp s.settings) := by
  unfold Setup.performanceDirectories
  extract_lets o withGraphs
  have hwith : ∀ graphs : Option GraphPlan, (graphs.isSome → o.performance ∨ o.genGraphs) →
      Threaded.Keeps P Q (withGraphs graphs) (Lasting.Planned tmp o) := by
    intro graphs hg
    simp -zeta only [withGraphs]
    extract_lets withCompiler
    have hcompiler : ∀ compiler : Option CompilerPerf,
        (∀ k ∈ compiler, k.tempDatDirectory = timings tmp) → (compiler.isSome → o.compPerformance) →
        Threaded.Keeps P Q (withCompiler compiler) (Lasting.Planned tmp o) := by
      intro compiler hk hcomp
      simp only [withCompiler]
      split
      · next directory hdirectory =>
        refine (h.git _ _).after fun commit => ?_
        refine Threaded.Keeps.get.bind fun c hc => ?_
        have hcommit := fun arguments => h.asks c _ hc (commit_prepared hdirectory c arguments)
        have hrecord := h.recordCommit hcommit directory commit
        exact (Threaded.Keeps.lift hrecord).after fun _ => Threaded.Keeps.pure ⟨hk, hg, hcomp⟩
      · exact Threaded.Keeps.pure ⟨hk, hg, hcomp⟩
    split
    · next hcomp =>
      have hone : Threaded.Keeps P Q (some <$> s.planCompiler)
          fun compiler : Option CompilerPerf => ∀ k ∈ compiler, k.tempDatDirectory = timings tmp := by
        refine h.planCompiler.map fun k hk => ?_
        rintro _ ⟨⟩
        exact hk
      exact hone.bind fun compiler hk => hcompiler compiler hk fun _ => hcomp
    · have hnone : Threaded.Keeps P Q (pure none : Arranging (Option CompilerPerf))
          (· = none) := Threaded.Keeps.pure rfl
      refine hnone.bind ?_
      rintro _ rfl
      exact hcompiler none nofun nofun
  split
  · next hgraphs =>
    have hsome : Arranges Q P (some <$> s.planGraphs) := h.planGraphs.map fun _ _ => trivial
    exact hsome.after fun graphs => hwith graphs fun _ => by simpa [o] using hgraphs
  · have hnone : Threaded.Keeps P Q (pure none : Arranging (Option GraphPlan))
        (· = none) := Threaded.Keeps.pure rfl
    refine hnone.bind ?_
    rintro _ rfl
    exact hwith none nofun

/-- Setup fills in the context, and plans what the settings ask for. -/
theorem run (h : Furnishing tmp A s.settings Q P) {c : Context} (hc : Q c) :
    (s.run c).Keeps P fun r => Q r.1 ∧ Lasting.Planned tmp s.settings r.2 := by
  have harrange : Threaded.Keeps P Q s.arrange (Lasting.Planned tmp s.settings) := by
    unfold Setup.arrange
    refine h.optionVariables.after fun execopts => ?_
    refine h.general.after fun _ => ?_
    refine h.performanceFlags.after fun _ => ?_
    exact (h.executables execopts).after fun _ => h.performanceDirectories
  unfold Setup.run
  exact (harrange c hc).bind fun r hr => Job.Keeps.pure ⟨hr.2, hr.1⟩

theorem specTests (h : Furnishing tmp A s.settings Q P) {c : Context} (hc : Q c) :
    (s.specTests c).Stays P := by
  unfold Setup.specTests
  split
  · next hspec =>
    have hclean : s.settings.cleanOnly = false := by
      simp only [Bool.and_eq_true, Bool.not_eq_true'] at hspec
      exact hspec.1.1.2
    refine (h.stays_note _).after fun _ => ?_
    extract_lets make judge
    have hjudge : ∀ code, (judge code).Stays P := fun _ =>
      Job.Keeps.either (Job.Keeps.throw _ _) (Job.Keeps.given _)
    have hmake := h.asks c _ hc (.make s.layout.home hclean)
    refine (h.outcome_follow hmake).after fun result => ?_
    split
    · exact (Job.Keeps.given _).after hjudge
    · exact (Job.Keeps.given _).after hjudge
    · exact (Job.Keeps.throw _ fun _ => True).after hjudge
  · exact Job.Keeps.given _

theorem toolchainReport (h : Furnishing tmp A o Q P) {c : Context} (hc : Q c) :
    (Setup.toolchainReport c).Stays P := by
  unfold Setup.toolchainReport
  refine (h.stays_note _).after fun _ => ?_
  refine (h.stays_note _).after fun _ => ?_
  refine (Job.Keeps.lift (h.capture (h.asks c _ hc .toolchain))).after fun report => ?_
  split
  · exact (h.stays_note _).after fun _ => h.stays_note _
  · exact h.stays_note _

end Furnishing

namespace Session

variable {s : Session} {scratch : Scratch}

/-- What the setup of a session starts from. -/
def setup (s : Session) : Setup :=
  { settings := s.settings, layout := s.layout, toolchain := s.toolchain, files := s.files
    cwd := s.cwd }

/-- The context that its setup fills in. -/
def created (s : Session) (scratch : Scratch) : Context :=
  Context.create s.environment s.layout.utilDirectory scratch.path s.cwd

/-- The phases after its setup. -/
def phases (s : Session) (made : Context × PerfPlan) : Phases :=
  { settings := s.settings, layout := s.layout, context := made.1, plan := made.2 }

/-- The directories that are tested: where no target is named, the default one. -/
def roots (s : Session) (files directories : List Path) : List Path :=
  if files.isEmpty && directories.isEmpty then [s.defaultDirectory] else directories

/-- What is done between setup and the phases. It answers the directories to test. -/
def prelude (s : Session) (made : Context × PerfPlan) (files directories : List Path) :
    Job (List Path) := do
  if files.isEmpty && directories.isEmpty then
    s.setup.specTests made.1
  let roots := s.roots files directories
  note ("[tests: \"" ++ joinPaths files ++ "\"]")
  note ("[directories: " ++ (if s.settings.recurse then "" else "(nonrecursive): ") ++ "\"" ++
    joinPaths roots ++ "\"]")
  Setup.toolchainReport made.1
  return roots

theorem execute_eq (files directories : List Path) : s.execute scratch files directories = (do
    let made ← s.setup.run (s.created scratch)
    let roots ← s.prelude made files directories
    (s.phases made).run files roots) := by
  unfold execute
  apply bind_congr
  intro made
  by_cases hnone : (files.isEmpty && directories.isEmpty) = true
  · simp only [prelude, roots, hnone, if_true, bind_assoc, pure_bind]
    rfl
  · simp only [prelude, roots, hnone, Bool.false_eq_true, if_false, bind_assoc, pure_bind]
    rfl

end Session

/-- Between setup and the phases the tools of setup may be asked for once more. -/
theorem Furnishing.prelude {tmp : Path} {A : Command → Prop} {Q : Context → Prop}
    {P : Machine → Prop} {s : Session} (h : Furnishing tmp A s.settings Q P)
    {made : Context × PerfPlan} (hmade : Q made.1) (files directories : List Path) :
    (s.prelude made files directories).Keeps P (· = s.roots files directories) := by
  unfold Session.prelude
  extract_lets roots rest
  have hrest : ∀ u, (rest u).Keeps P (· = s.roots files directories) := by
    intro u
    refine (h.stays_note _).after fun _ => ?_
    refine (h.stays_note _).after fun _ => ?_
    exact (h.toolchainReport hmade).after fun _ => Job.Keeps.pure rfl
  exact Job.Keeps.whether (Furnishing.specTests (s := s.setup) h hmade) (hrest ())

namespace Lasting

variable {tmp : Path} {A : Command → Prop} {o : Settings} {P : Machine → Prop}

/-- Whatever settings allow is allowed. -/
abbrev Grants (A : Command → Prop) (o : Settings) : Prop := ∀ c, o.Allows c → A c

/-- The directory of the tools' own files stays the same, whatever is asked for. -/
theorem furnishing (h : Lasting tmp A P) (hA : Grants A o) :
    Furnishing tmp A o (Context.Tmp tmp) P :=
  ⟨h, fun _ hc => hc, fun _ _ _ _ hc => hc, fun _ _ hc => hc, fun _ _ _ hd => hA _ hd.allows⟩

variable {session : Session}

theorem sortTargets (h : Lasting tmp A P) (targets : List Path) :
    (session.sortTargets targets).Stays P := by
  induction targets with
  | nil => exact Job.Keeps.given _
  | cons target rest ih =>
    have hsort : (session.sortTarget target).Stays P := by
      unfold Session.sortTarget
      refine Job.Keeps.get.after fun m => ?_
      exact Job.Keeps.whether (h.stays_note _) (Job.Keeps.given _)
    refine hsort.after fun sorted => ?_
    exact ih.after fun others => Job.Keeps.given _

/-- Setup and all tests are made of such steps, where the runners keep their files in `tmp`. -/
theorem execute {scratch : Scratch} (h : Lasting scratch.path A P)
    (hA : Grants A session.settings) (files directories : List Path) :
    (session.execute scratch files directories).Stays P := by
  have hsetup : Furnishing scratch.path A session.settings (Context.Tmp scratch.path) P :=
    h.furnishing hA
  have hcreated : Context.Tmp scratch.path (session.created scratch) := rfl
  rw [Session.execute_eq]
  refine (Furnishing.run (s := session.setup) hsetup hcreated).bind fun made hmade => ?_
  refine (hsetup.prelude hmade.1 files directories).after fun roots => ?_
  exact h.phases (p := session.phases made) hA hmade.2 files roots

end Lasting

end Regression
