import Regression.Proofs.Account
import Regression.Proofs.Books
import Regression.Proofs.Onward

namespace Regression

namespace Path

/-- A name alone is a path of one name. -/
theorem names_single {s : String} (hs : '/' ∉ s.toList) (hf : s ≠ "") : (Path.mk s).names = [s] := by
  simp [names, pieces, List.splitOn_eq_singleton hs, hf]

theorem names_join_getLast (p : Path) {s : String} (hs : '/' ∉ s.toList) (hf : s ≠ "") :
    (p / s).names.getLast? = some s := by
  by_cases hp : p.text = ""
  · have hjoin : p / s = ⟨s⟩ := by
      change p.join s = _
      simp [join, head_ne_separator hs, hp]
    rw [hjoin, names_single hs hf, List.getLast?_singleton]
  · rw [names_join hp hs hf, List.getLast?_concat]

end Path

namespace Command

/-- The name of the program that a command starts. -/
def tool (c : Command) : String := ((Path.mk c.program).names.getLast?).getD ""

variable {c : Command} {s : String}

theorem tool_single (h : c.program = s) (hs : '/' ∉ s.toList) (hf : s ≠ "") : c.tool = s := by
  rw [tool, h, Path.names_single hs hf]
  rfl

theorem tool_join {p : Path} (h : c.program = (p / s).text) (hs : '/' ∉ s.toList) (hf : s ≠ "") :
    c.tool = s := by
  rw [tool, h, p.names_join_getLast hs hf]
  rfl

end Command

namespace Settings

/-- The tools of a session that only cleans: the cleaner, those that are asked about the machine, and
those that keep what the session was asked to keep besides. -/
def cleaningTools (o : Settings) : List String :=
  ["sub_clean", "git", "which", "valgrind", "uname", "printchplenv"] ++
    (if o.performance ∨ o.compPerformance then ["computePerfStats"] else []) ++
    (if o.compPerformance then ["combineCompPerfData"] else []) ++
    (if o.performance ∨ o.genGraphs ∨ o.compPerformance then ["genGraphs"] else []) ++
    if o.junitXml then ["convert_start_test_log_to_junit_xml.py"] else []

theorem Allows.cleans {o : Settings} {c : Command} (hclean : o.cleanOnly = true)
    (h : o.Allows c) : c.tool ∈ o.cleaningTools := by
  have hnot : ¬o.cleanOnly = false := by simp [hclean]
  have hmachine : ∀ program ∈ ["which", "valgrind", "uname"],
      '/' ∉ program.toList ∧ program ≠ "" := by decide
  cases h with
  | git c cwd arguments =>
    rw [Command.tool_single (s := "git") rfl (by decide) (by decide)]
    simp [cleaningTools]
  | machine c arguments hprogram =>
    obtain ⟨hs, hf⟩ := hmachine _ hprogram
    rw [Command.tool_single rfl hs hf]
    have hmem : ∀ program ∈ ["which", "valgrind", "uname"], program ∈ o.cleaningTools := by
      simp [cleaningTools]
    exact hmem _ hprogram
  | toolchain c =>
    rw [Command.tool_join rfl (by decide) (by decide)]
    simp [cleaningTools]
  | commit c arguments hasked =>
    rw [Command.tool_join rfl (by decide) (by decide)]
    simp [cleaningTools, hasked]
  | make c home h => exact absurd h hnot
  | cleaner c directory test =>
    rw [Command.tool_join (s := Runner.cleanerName) rfl (by decide) (by decide)]
    simp [cleaningTools, Runner.cleanerName]
  | condition c directory script h => exact absurd h hnot
  | runner c runner directory test h => exact absurd h hnot
  | graphs t arguments trailing directory hasked =>
    rw [Command.tool_join rfl (by decide) (by decide)]
    simp [cleaningTools, hasked]
  | combine k c seconds hasked =>
    rw [Command.tool_join rfl (by decide) (by decide)]
    simp [cleaningTools, hasked]

end Settings

theorem Session.junitCommand_tool (s : Session) :
    s.junitCommand.tool = "convert_start_test_log_to_junit_xml.py" :=
  Command.tool_join rfl (by decide) (by decide)

/-- A message asks for nothing. -/
theorem note_ok_started {m m' : Machine} {text : String} {result : Except Error Unit}
    (h : (note text).on m = (result, m')) : m'.started = m.started := by
  obtain ⟨files, log, console, rfl⟩ := note_ok h
  rfl

namespace Runner

variable {c : Context} {d : Path} {test : Option String} {m m' : Machine}

/-- Cleaning asks for the cleaner, once. -/
theorem clean_ok (h : (clean c d test).on m = (.ok (), m')) :
    m'.started = m.started ++ [cleanCommand c d test] := by
  have hrest : ∀ {tell : Option String → Job Unit} {m},
      (∀ output m₁, (tell output).on m₁ = (.ok (), m') → m'.started = m₁.started) →
      Job.on (do tell (← attempt (cleanCommand c d test).capture)) m = (.ok (), m') →
      m'.started = m.started ++ [cleanCommand c d test] := by
    intro tell m htell h
    obtain ⟨output, m₁, hcapture, h⟩ := Job.bind_ok h
    cases hcapture
    rw [← Command.attempt_capture_started]
    exact htell _ _ h
  unfold clean at h
  split at h
  · obtain ⟨_, m₁, hget, h⟩ := Job.bind_ok h
    cases hget
    obtain ⟨_, m₂, hnote, h⟩ := Job.bind_ok h
    rw [← note_ok_started hnote]
    refine hrest (fun told m₃ htold => ?_) h
    cases told <;> exact note_ok_started htold
  · refine hrest (fun told m₁ htold => ?_) h
    cases told <;> exact note_ok_started htold

end Runner

namespace Phases

variable {p : Phases} {m m' : Machine}

def cleanFile (p : Phases) (file : Path) : Command :=
  Runner.cleanCommand p.fileContext (file.parent.getD ⟨"/"⟩) (some (Runner.nameOf file))

def cleanDirectory (p : Phases) (d : Path) : Command :=
  Runner.cleanCommand p.directoryContext d none

/-- A file that is named is cleaned up after, and nothing else is done. -/
theorem singleFile_cleans (hclean : p.settings.cleanOnly = true) {file : Path}
    (h : (p.singleFile file).on m = (.ok (), m')) : m'.started = m.started ++ [p.cleanFile file] := by
  unfold singleFile at h
  obtain ⟨_, m₁, hblank, h⟩ := Job.bind_ok h
  obtain ⟨_, m₂, hnote, h⟩ := Job.bind_ok h
  obtain ⟨_, m₃, hcleaned, h⟩ := Job.bind_ok h
  rw [hclean] at h
  cases h
  rw [Runner.clean_ok hcleaned, note_ok_started hnote, note_ok_started hblank]
  rfl

theorem handle_cleans (hclean : p.settings.cleanOnly = true) {mode : RunMode}
    (hmode : mode ≠ .graph) {d : Path} (h : (p.handle d mode).on m = (.ok (), m')) :
    m'.started = m.started ++ [p.cleanDirectory d] := by
  unfold handle at h
  rw [if_neg hmode] at h
  obtain ⟨_, m₁, hcleaned, h⟩ := Job.bind_ok h
  rw [hclean] at h
  cases h
  exact Runner.clean_ok hcleaned

/-- A pass to run tests that only cleans, of which `es` has an entry for each directory that it could
not enter or worked on, in order. They account for all that it has done, to the last line and count. -/
structure Swept (p : Phases) (root : Path) (mode : RunMode) (m : Machine) (report : WalkReport)
    (m' : Machine) (es : List Walk.Entry) : Prop where
  done : Deeds p.directoryContext mode p.handle (Walk.course root es) m m'
  counted : report = Walk.counts es
  /-- No marker is asked: a directory that is worked on is eligible just if it has tests when the pass,
  having told that it works on it, looks at it. -/
  looked : ∀ before d v eligible after, es = before ++ .worked d v eligible :: after → v = none ∧
    ∃ m₁, Deeds p.directoryContext mode p.handle
        (Walk.course root before ++ [.noted "", .noted (Walk.workingOn d)]) m m₁ ∧
      (eligible = true ↔ Walk.hasTests m₁ (walkOptions p.settings) d mode = true)
  /-- The eligible ones have the cleaner run on them, in order, and nothing else is asked for. -/
  cleaned : m'.started = m.started ++ (Walk.withLot .handled es).map p.cleanDirectory

section Pass

variable {root d : Path} {mode : RunMode} {report : WalkReport} {m₁ : Machine} {es : List Walk.Entry}

/-- What a pass has of one more directory it has of that one last. -/
theorem Swept.snoc {report' : WalkReport} (h : p.Swept root mode m report m₁ es) (e : Walk.Entry)
    (hreport : report' = report + e.counted)
    (hdone : Deeds p.directoryContext mode p.handle e.deeds m₁ m')
    (hlooked : ∀ d v eligible, e = .worked d v eligible → v = none ∧
      ∃ m₂, Deeds p.directoryContext mode p.handle [.noted "", .noted (Walk.workingOn d)] m₁ m₂ ∧
        (eligible = true ↔ Walk.hasTests m₂ (walkOptions p.settings) d mode = true))
    (hcleaned : m'.started = m₁.started ++ (Walk.withLot .handled [e]).map p.cleanDirectory) :
    p.Swept root mode m report' m' (es ++ [e]) where
  done := by
    have hcourse : Walk.course root (es ++ [e]) = Walk.course root es ++ e.deeds := by
      simp [Walk.course]
    rw [hcourse]
    exact h.done.append hdone
  counted := by
    rw [hreport, Walk.counts_append, ← h.counted, Walk.counts_cons, Walk.counts_nil,
      WalkReport.add_nothing]
  looked before d v eligible after hsplit := by
    have hlast : before = es ∧ e = .worked d v eligible →
        v = none ∧ ∃ m₁, Deeds p.directoryContext mode p.handle
            (Walk.course root before ++ [.noted "", .noted (Walk.workingOn d)]) m m₁ ∧
          (eligible = true ↔ Walk.hasTests m₁ (walkOptions p.settings) d mode = true) := by
      rintro ⟨rfl, he⟩
      obtain ⟨hv, m₂, hannounced, hiff⟩ := hlooked d v eligible he
      exact ⟨hv, m₂, h.done.append hannounced, hiff⟩
    rcases List.append_eq_append_iff.mp hsplit with ⟨more, rfl, hmore⟩ | ⟨more, rfl, hmore⟩
    · cases more with
      | nil => exact hlast ⟨List.append_nil _, (List.cons.inj hmore).1⟩
      | cons _ more => simp at hmore
    · cases more with
      | nil => exact hlast ⟨(List.append_nil _).symm, (List.cons.inj hmore).1.symm⟩
      | cons _ more =>
        obtain ⟨rfl, rfl⟩ := List.cons.inj hmore
        exact h.looked _ _ _ _ _ rfl
  cleaned := by
    have hlot : Walk.withLot .handled (es ++ [e]) =
        Walk.withLot .handled es ++ Walk.withLot .handled [e] := by
      simp [Walk.withLot]
    rw [hcleaned, h.cleaned, hlot, List.map_append, List.append_assoc]

/-- A directory that is worked on has the cleaner run on it just if it is eligible. -/
theorem Swept.workOn (hclean : p.settings.cleanOnly = true) (hmode : mode ≠ .graph)
    (h : p.Swept root mode m report m₁ es) {report' : WalkReport} {deeper : Bool}
    (hok : ((Walk.workOn p.directoryContext (walkOptions p.settings) mode p.handle d).run report).on m₁ =
      (.ok (deeper, report'), m')) : ∃ e, p.Swept root mode m report' m' (es ++ [e]) := by
  obtain ⟨v, m₂, m₃, m₄, hworks, hfate⟩ := Walk.workOn_ok hok
  have hjudged := hworks.judged
  rw [Walk.judge, if_pos (show (walkOptions p.settings).cleanOnly = true from hclean)] at hjudged
  cases hjudged
  have htold := hworks.told
  cases htold
  obtain ⟨_, m₃, hblank, hnote⟩ := Job.bind_ok hworks.announced
  have hannounced : Deeds p.directoryContext mode p.handle
      [.noted "", .noted (Walk.workingOn d)] m₁ m₂ := .cons hblank (.cons hnote (.nil m₂))
  have hstarted : m₂.started = m₁.started := by rw [note_ok_started hnote, note_ok_started hblank]
  have hlooked : ∀ {eligible : Bool},
      (eligible = true ↔ Walk.hasTests m₂ (walkOptions p.settings) d mode = true) →
      ∀ d' v' eligible', Walk.Entry.worked d none eligible = .worked d' v' eligible' → v' = none ∧
        ∃ m₂, Deeds p.directoryContext mode p.handle [.noted "", .noted (Walk.workingOn d')] m₁ m₂ ∧
          (eligible' = true ↔ Walk.hasTests m₂ (walkOptions p.settings) d' mode = true) := by
    rintro eligible hiff _ _ _ ⟨⟩
    exact ⟨rfl, m₂, hannounced, hiff⟩
  cases hfate with
  | pruned hv => cases hv
  | skipped hv => cases hv
  | handled _ htests hhandle =>
    have hhanded : Deeds p.directoryContext mode p.handle [.handed d] m₂ m' := .cons hhandle (.nil m')
    refine ⟨_, h.snoc (.worked d none true) rfl (hannounced.append hhanded) ?_ ?_⟩
    · exact hlooked (iff_of_true rfl (htests.resolve_left hmode))
    · rw [handle_cleans hclean hmode hhandle, hstarted]
      rfl
  | empty _ _ hnone hnote =>
    have htold : Deeds p.directoryContext mode p.handle [.noted (Walk.noTests d)] m₂ m' :=
      .cons hnote (.nil m')
    refine ⟨_, h.snoc (.worked d none false) rfl (hannounced.append htold) ?_ ?_⟩
    · exact hlooked (iff_of_false Bool.false_ne_true (by rw [hnone]; exact Bool.false_ne_true))
    · rw [note_ok_started hnote, hstarted]
      exact (List.append_nil _).symm

theorem pass_cleans (hclean : p.settings.cleanOnly = true) (hmode : mode ≠ .graph)
    (h : (walk p.directoryContext (walkOptions p.settings) mode p.handle root).on m =
      (.ok report, m')) : ∃ es, p.Swept root mode m report m' es := by
  have hholds : Walk.Upholds p.directoryContext (walkOptions p.settings) mode p.handle
      (fun _ => True) fun r m' => ∃ es, p.Swept root mode m r m' es := by
    refine ⟨fun _ _ _ _ _ _ _ => trivial, ?_, ?_⟩
    · rintro d - r m₁ u r' m₂ ⟨es, hes⟩ hok
      obtain ⟨_, _, hnote, hcount⟩ := Threaded.lift_bind_ok hok
      cases hcount
      have hrefused : Deeds p.directoryContext mode p.handle [.noted (Walk.cannotEnter d)] m₁ m₂ :=
        .cons hnote (.nil m₂)
      refine ⟨_, hes.snoc (.refused d) rfl hrefused ?_ ?_⟩
      · rintro _ _ _ ⟨⟩
      · rw [note_ok_started hnote]
        exact (List.append_nil _).symm
    · rintro d - r m₁ deeper r' m₂ ⟨es, hes⟩ hok
      obtain ⟨e, he⟩ := hes.workOn hclean hmode hok
      exact ⟨_, he⟩
  obtain ⟨_, m₁, hnote, h⟩ := Job.bind_ok h
  obtain ⟨⟨_, _⟩, _, hbegin, h⟩ := Job.bind_ok h
  cases h
  have hstart : p.Swept root mode m {} m₁ [] := by
    refine ⟨.cons hnote (.nil m₁), rfl, fun before d v eligible after hsplit => ?_, ?_⟩
    · simp at hsplit
    · rw [note_ok_started hnote]
      exact (List.append_nil _).symm
  exact hholds.begin trivial {} m₁ () _ _ ⟨[], hstart⟩ hbegin

end Pass

/-- The passes over directories, one after the other, of which each that is to run tests only cleans. -/
inductive Sweeps (p : Phases) : List (Path × RunMode) → Machine → Machine → Prop where
  | done (m : Machine) : Sweeps p [] m m
  | pass {root : Path} {mode : RunMode} {passes : List (Path × RunMode)} {report : WalkReport}
    {m m₁ m' : Machine}
    (hwalk : (walk p.directoryContext (walkOptions p.settings) mode p.handle root).on m =
      (.ok report, m₁))
    (hswept : mode ≠ .graph → ∃ es, p.Swept root mode m report m₁ es) (rest : Sweeps p passes m₁ m') :
    Sweeps p ((root, mode) :: passes) m m'

theorem Sweeps.append {passes passes' : List (Path × RunMode)} {m₁ : Machine}
    (h : p.Sweeps passes m m₁) (h' : p.Sweeps passes' m₁ m') : p.Sweeps (passes ++ passes') m m' := by
  induction h with
  | done => exact h'
  | pass hwalk hswept _ ih => exact .pass hwalk hswept (ih h')

theorem Sweeps.of_modes (hclean : p.settings.cleanOnly = true) {root : Path} {modes : List RunMode}
    (h : Job.Turns (fun mode => walk p.directoryContext (walkOptions p.settings) mode p.handle root)
      modes m m') : p.Sweeps (modes.map fun mode => (root, mode)) m m' := by
  induction h with
  | done m => exact .done m
  | turn hwalk _ ih => exact .pass hwalk (fun hmode => pass_cleans hclean hmode hwalk) ih

theorem directory_cleans (hclean : p.settings.cleanOnly = true) {root : Path}
    (h : (p.directory root).on m = (.ok (), m')) :
    p.Sweeps (p.settings.directoryPasses.map fun mode => (root, mode)) m m' := by
  obtain ⟨_, m₁, hmodes, hend⟩ := Job.bind_ok h
  cases hend
  exact .of_modes hclean (Job.each_ok hmodes)

theorem Sweeps.of_roots (hclean : p.settings.cleanOnly = true) {roots : List Path}
    (h : Job.Turns p.directory roots m m') :
    p.Sweeps (roots.flatMap fun root => p.settings.directoryPasses.map fun mode => (root, mode))
      m m' := by
  induction h with
  | done m => exact .done m
  | turn hroot _ ih =>
    rw [List.flatMap_cons]
    exact (directory_cleans hclean hroot).append ih

theorem files_cleans (hclean : p.settings.cleanOnly = true) {files : List Path}
    (h : Job.Turns p.singleFile files m m') : m'.started = m.started ++ files.map p.cleanFile := by
  induction h with
  | done m => exact (List.append_nil _).symm
  | turn hfile _ ih =>
    rw [ih, singleFile_cleans hclean hfile, List.map_cons, List.append_assoc]
    rfl

theorem run_sweeps (hclean : p.settings.cleanOnly = true) {files roots : List Path}
    (h : (p.run files roots).on m = (.ok (), m')) : ∃ m₁ m₂ : Machine,
      m₁.started = m.started ++ files.map p.cleanFile ∧
      p.Sweeps (roots.flatMap fun root => p.settings.directoryPasses.map fun mode => (root, mode))
        m₁ m₂ ∧
      p.conclude.on m₂ = (.ok (), m') := by
  rw [run_eq] at h
  obtain ⟨_, m₁, hfiles, h⟩ := Job.bind_ok h
  obtain ⟨_, m₂, hroots, hconclude⟩ := Job.bind_ok h
  exact ⟨m₁, m₂, files_cleans hclean (Job.each_ok hfiles),
    .of_roots hclean (Job.each_ok hroots), hconclude⟩

end Phases

theorem Onward.started {A : Command → Prop} {m m' : Machine} (h : Onward A m m') :
    ∃ asked, m'.started = m.started ++ asked ∧ ∀ c ∈ asked, A c := by
  obtain ⟨asked, hasked, hall⟩ := h.commands
  refine ⟨asked.reverse, ?_, fun c hc => hall c (List.mem_reverse.mp hc)⟩
  rw [Machine.started, hasked, List.reverse_append]
  rfl

namespace Session

variable {s : Session}

/-- All that a session that only cleans does with tools. -/
structure CleansOnly (s : Session) : Prop where
  /-- From its beginning to its end, however it ends, it asks for no others than these. -/
  asked : ∀ targets m, ∃ asked, ((s.run targets).on m).2.started = m.started ++ asked ∧
    ∀ c ∈ asked, c.tool ∈ s.settings.cleaningTools
  /-- Where its work succeeds, the files that were named are cleaned, in order, and then the
  directories, pass by pass. -/
  cleaned : ∀ scratch sorted m m', (s.work scratch sorted).on m = (.ok (), m') →
    ∃ (p : Phases) (m₁ m₂ m₃ : Machine), p.settings = s.settings ∧
      m.started <+: m₁.started ∧
      m₂.started = m₁.started ++ (sorted.filterMap Target.file?).map p.cleanFile ∧
      p.Sweeps ((s.roots (sorted.filterMap Target.file?) (sorted.filterMap Target.directory?)).flatMap
        fun root => s.settings.directoryPasses.map fun mode => (root, mode)) m₂ m₃ ∧
      m₃.started <+: m'.started

/-- A session that only cleans asks for no more than a session like it may, and the cleaner works on
every named file and on every directory that the walks find eligible. -/
theorem run_cleans (hclean : s.settings.cleanOnly = true) : s.CleansOnly := by
  refine ⟨fun targets m => ?_, fun scratch sorted m m' h => ?_⟩
  · have hjunit : s.settings.junitXml → s.junitCommand.tool ∈ s.settings.cleaningTools := by
      intro hjunit
      simp [s.junitCommand_tool, Settings.cleaningTools, hjunit]
    exact (Onward.run (fun _ hc => hc.cleans hclean) hjunit targets m .refl).1.started
  · have hlasting : ∀ {m₁}, Lasting scratch.path (fun _ => True) (Onward (fun _ => True) m₁) :=
      Onward.lasting scratch.path
    obtain ⟨p, m₁, hsettings, hplanned, hbefore, hrun⟩ :=
      execute_ok hlasting (fun _ _ => trivial) (.refl (m := m)) h
    rw [← hsettings] at hclean
    obtain ⟨m₂, m₃, hfiles, hsweeps, hconclude⟩ := Phases.run_sweeps hclean hrun
    have hafter := (hlasting.conclude (fun _ _ => trivial) hplanned.timings).leaves .refl hconclude
    obtain ⟨setup, hsetup, -⟩ := hbefore.started
    obtain ⟨rest, hrest, -⟩ := hafter.started
    rw [hsettings] at hsweeps
    exact ⟨p, m₁, m₂, m₃, hsettings, ⟨setup, hsetup.symm⟩, hfiles, hsweeps, ⟨rest, hrest.symm⟩⟩

end Session

namespace Trial

/-- A session that only cleans and that is to keep how fast the compiler was. -/
def sweeping : Session :=
  { session with
    settings := { cleanOnly := true, compPerformance := true, compiler := some ⟨"/c"⟩ }
    environment := .ofList
      [("CHPL_TEST_COMP_PERF_DIR", "/"), ("CHPL_TEST_PERF_CONFIG_NAME", "n"),
        ("CHPL_TEST_TMP_DIR", "/")] }

/-- The machine with a compiler, and with a test in a directory. -/
def furnished : Machine :=
  { machine [] with
    files :=
      { entries :=
          [([], .directory .newDirectory), (["a"], .file 0 .newFile []),
            (["c"], .file 1 .newDirectory []), (["d"], .directory .newDirectory),
            (["t.chpl", "d"], .file 2 .newFile [])]
        serial := 3 } }

/-- A file is cleaned up after, and then the directory that the pass finds a test in. -/
theorem run_cleans_sweeping : sweeping.CleansOnly ∧
    ∃ (m' : Machine) (p : Phases) (m₁ m₂ m₃ : Machine) (report : WalkReport) (es : List Walk.Entry),
      (sweeping.work scratch [.file ⟨"/a"⟩, .directory ⟨"/d"⟩]).on furnished = (.ok (), m') ∧
      p.settings = sweeping.settings ∧ m₂.started = m₁.started ++ [p.cleanFile ⟨"/a"⟩] ∧
      p.Swept ⟨"/d"⟩ .execute m₂ report m₃ es ∧
      ∃ c ∈ m'.started, c.tool = "sub_clean" ∧ c.directory = some ⟨"/d"⟩ := by
  have hcleans : sweeping.CleansOnly := Session.run_cleans rfl
  have hruns : ((sweeping.work scratch [.file ⟨"/a"⟩, .directory ⟨"/d"⟩]).on furnished).1.isOk = true ∧
      ∃ c ∈ ((sweeping.work scratch [.file ⟨"/a"⟩, .directory ⟨"/d"⟩]).on furnished).2.started,
        c.tool = "sub_clean" ∧ c.directory = some ⟨"/d"⟩ := by decide +kernel
  obtain ⟨u, m', hwork⟩ := Job.on_of_isOk hruns.1
  obtain ⟨p, m₁, m₂, m₃, hsettings, -, hfiles, hsweeps, -⟩ := hcleans.cleaned _ _ _ _ hwork
  cases hsweeps with
  | pass hwalk hswept rest =>
    cases rest
    obtain ⟨es, hes⟩ := hswept (by decide)
    have hcleaner := hruns.2
    rw [hwork] at hcleaner
    exact ⟨hcleans, m', p, m₁, m₂, m₃, _, es, hwork, hsettings, hfiles, hes, hcleaner⟩

/-- A session that only cleans records how fast the compiler was, and graphs it. -/
theorem cleaning_graphs : sweeping.settings.cleanOnly = true ∧ furnished.started = [] ∧
    ∀ tool ∈ ["computePerfStats", "combineCompPerfData", "genGraphs"],
      ∃ c ∈ ((sweeping.run [⟨"/a"⟩]).on furnished).2.started, c.tool = tool :=
  ⟨rfl, rfl, by decide +kernel⟩

end Trial

end Regression
