import Regression.Proofs.Attempts
import Regression.Proofs.GraphWalk
import Regression.Proofs.WaysOut

namespace Regression

open Summary (graphLines)
open Text (Foreign OneLine Unmarked)

namespace Phases

variable {K : Prop} {m₁ : Machine} {base : List Change} {p : Phases}

theorem oneLine_html (h : p.plan.Legible p.settings) {g : PerfGraphs} (hg : p.graphs = some g) :
    OneLine g.htmlDirectory.text := by
  rw [graphs, Option.map_eq_some_iff] at hg
  obtain ⟨plan, hplan, rfl⟩ := hg
  obtain ⟨hdirectory, hdescription⟩ := h.graphs plan hplan
  exact Path.oneLine_div (Path.oneLine_div hdirectory hdescription) (by decide)

theorem handles_graphs (htools : m₁.tools.Discreet) (h : p.plan.Legible p.settings) :
    Walk.Handles K m₁ p.handle .graph := by
  intro base d hd
  unfold handle
  rw [if_pos rfl]
  split
  · next g hg => exact Faring.forDirectory htools (oneLine_html h hg) hd
  · exact Job.Clears.pure fun _ hm => hm

theorem directory_steady (htools : m₁.tools.Discreet) (h : p.plan.Legible p.settings)
    (hpasses : p.settings.directoryPasses = [.graph]) {root : Path} (hroot : OneLine root.text) :
    Faring.Steady K m₁ base (fun _ _ => True) (p.directory root) := by
  unfold directory
  rw [hpasses]
  refine (Job.Clears.each fun mode hmode => ?_).bind fun _ => Job.Clears.pure fun _ hm => hm
  rw [List.mem_singleton.mp hmode]
  exact walk_steady (handles_graphs htools h) hroot

theorem conclude_steady (htools : m₁.tools.Discreet) (h : p.plan.Legible p.settings)
    (hK : p.settings.compPerformance = true → K) (hlabel : p.settings.perfLabel = "perf")
    (htest : OneLine p.layout.testDirectory.text) :
    Faring.Steady K m₁ base (fun _ _ => True) p.conclude := by
  unfold conclude
  have hlist : ∀ g, p.graphs = some g → Faring.Steady K m₁ base (fun _ _ => True)
      (g.fromList p.layout.testDirectory p.settings.perfLabel) := fun g hg =>
    Faring.fromList htools (oneLine_html h hg) htest hlabel
  cases hplan : p.plan.compiler
  case' some k =>
    have hkept : K := hK (h.keeping (by rw [hplan]; rfl))
    refine (Faring.finish htools hkept (h.compiler k hplan).2 p.context p.tool htest).bind fun _ => ?_
  -- With a report before it or without one, the list of the runners comes last.
  all_goals
    dsimp only
    split
    · split
      · next g hg => exact hlist g hg
      · exact Job.Clears.pure fun _ hm => hm
    · exact Job.Clears.pure fun _ hm => hm

theorem run_steady (htools : m₁.tools.Discreet) (h : p.plan.Legible p.settings)
    (hK : p.settings.compPerformance = true → K) (hpasses : p.settings.directoryPasses = [.graph])
    (hlabel : p.settings.perfLabel = "perf") (htest : OneLine p.layout.testDirectory.text)
    {roots : List Path} (hroots : ∀ root ∈ roots, OneLine root.text) :
    Faring.Steady K m₁ base (fun _ _ => True) (p.run [] roots) := by
  rw [Phases.run_eq, List.forIn_nil, pure_bind]
  refine (Job.Clears.each fun root hroot => directory_steady htools h hpasses (hroots root hroot)).bind
    fun _ => ?_
  exact conclude_steady htools h hK hlabel htest

end Phases

namespace Settings

/-- Options of a session that only makes graphs, as a session has them. -/
structure Graphing (o : Settings) : Prop where
  normal : o.normalize = o
  only : o.graphsOnly = true
  counted : o.cleanOnly = false

variable {o : Settings}

theorem Graphing.untimed (h : o.Graphing) : o.genGraphs = true ∧ o.performance = false := by
  simpa [graphsOnly] using h.only

theorem Graphing.passes (h : o.Graphing) : o.directoryPasses = [.graph] := by
  simp [directoryPasses, h.untimed]

theorem Graphing.marker (h : o.Graphing) : o.successMarker = .generating := by
  simp [successMarker, h.only, SuccessMarker.forRun]

/-- A label of its own would turn performance tests on. -/
theorem Graphing.label (h : o.Graphing) : o.perfLabel = "perf" := by
  have hperformance := congrArg performance h.normal
  rw [h.untimed.2] at hperformance
  simp only [normalize, Bool.or_eq_false_iff, bne_eq_false_iff_eq] at hperformance
  exact hperformance.2

end Settings

namespace Session

variable {s : Session} {scratch : Scratch} {m m₁ m' : Machine} {targets directories : List Path}
  {r : Outcome} {base : List Change}

/-- A session none of whose paths, variables and option values shows a newline. -/
structure Legible (s : Session) : Prop where
  setup : s.setup.Legible
  testDirectory : OneLine s.layout.testDirectory.text
  environment : ∀ b ∈ s.environment.bindings, OneLine b.2

theorem Legible.named (h : s.Legible) (scratch : Scratch) : (s.created scratch).Named := by
  intro name hname value hvalue
  have hother : ∀ name ∈ Context.placeNames,
      name ∉ ["CHPL_TEST_UTIL_DIR", "CHPL_TEST_TMP_DIR", Context.oneTestName] := by decide
  rw [Context.get?, get?_created (hother name hname)] at hvalue
  exact h.environment _ (Environment.mem_of_get? hvalue)

theorem Legible.roots (h : s.Legible) (hdirectories : ∀ d ∈ directories, OneLine d.text) :
    ∀ root ∈ s.roots [] directories, OneLine root.text := by
  intro root hroot
  unfold Session.roots at hroot
  split at hroot
  · rw [List.mem_singleton.mp hroot, defaultDirectory]
    split
    · exact h.testDirectory
    · exact h.setup.cwd
  · exact hdirectories root hroot

/-- All of a session but the report. -/
theorem execute_steady (hs : s.settings.Graphing) (hlegible : s.Legible) (htools : m₁.tools.Discreet)
    (hdirectories : ∀ d ∈ directories, OneLine d.text) :
    Faring.Steady (s.settings.compPerformance = true) m₁ base (fun _ _ => True)
      (s.execute scratch [] directories) := by
  have hK : s.settings.performance = true ∨ s.settings.compPerformance = true →
      s.settings.compPerformance = true := by
    rw [hs.untimed.2]
    simp
  have hroots := hlegible.roots hdirectories
  rw [execute_eq]
  refine Job.Clears.knowing
    (Setup.run_quiet (s := s.setup) htools hlegible.setup hK (hlegible.named scratch))
    fun made hmade => ?_
  refine Job.Clears.knowing (prelude_quiet htools hs.untimed.1 nofun hroots) fun roots hsame => ?_
  rw [hsame]
  exact Phases.run_steady (p := s.phases made) htools hmade id hs.passes hs.label
    hlegible.testDirectory hroots

/-- Where each target names a directory, sorting them does nothing else. -/
theorem sortTargets_directories
    (h : targets.map (Target.classify m · s.cwd) = directories.map fun d => some (.directory d)) :
    (s.sortTargets targets).on m = (.ok (directories.map .directory), m) := by
  induction targets generalizing directories with
  | nil =>
    rw [List.map_nil, eq_comm, List.map_eq_nil_iff] at h
    rw [h]
    rfl
  | cons target rest ih =>
    cases directories with
    | nil => exact absurd h (List.cons_ne_nil _ _)
    | cons d ds =>
      rw [List.map_cons, List.map_cons] at h
      obtain ⟨hd, hds⟩ := List.cons.inj h
      have hone : (s.sortTarget target).on m = (.ok (some (.directory d)), m) := by
        rw [sortTarget, Job.on_bind, Job.on_get]
        simp only [hd, Option.isNone_some, Bool.false_eq_true, if_false]
        rfl
      rw [sortTargets, Job.on_bind_ok hone, Job.on_bind_ok (ih hds)]
      rfl

/-- A session of directories whose tests end by no fatal error goes through all stages. -/
theorem run_passes (hbegins : s.Begins m scratch m₁) (hrun : (s.run targets).on m = (.ok r, m'))
    (hdirectories : targets.map (Target.classify m₁ · s.cwd) =
      directories.map fun d => some (.directory d))
    (hfatal : ∀ cause, ((s.execute scratch [] directories).on m₁).1 ≠ .error (.fatal cause)) :
    ∃ before summary m₂, (s.execute scratch [] directories).on m₁ = (.ok (), before) ∧
      s.report.on before = (.ok summary, m₂) ∧
      (s.finish scratch (.tested summary)).on m₂ = (.ok r, m') := by
  obtain ⟨_, _, ending, m₂, hbegins', htest, hfinish⟩ := run_ok hrun
  obtain ⟨rfl, rfl⟩ := Begins.unique hbegins hbegins'
  rw [test_eq, Job.on_bind_ok (sortTargets_directories hdirectories)] at htest
  have hfiles : (directories.map Target.directory).filterMap Target.file? = [] := by
    simp [List.filterMap_map, Target.file?]
  have hnamed : (directories.map Target.directory).filterMap Target.directory? = directories := by
    simp [List.filterMap_map, Target.directory?, Function.comp_def]
  have hwork : s.work scratch (directories.map .directory) = s.execute scratch [] directories := by
    rw [work, hfiles, hnamed]
  cases testSorted_stages htest with
  | untested hnone =>
    have hlength := congrArg List.length hdirectories
    simp only [List.length_map] at hlength
    simp only [List.isEmpty_map, Bool.and_eq_true, List.isEmpty_iff, Bool.not_eq_true',
      List.isEmpty_eq_false_iff] at hnone
    rw [hnone.1] at hlength
    exact absurd (List.length_eq_zero_iff.mp hlength) hnone.2
  | failed _ _ =>
    obtain ⟨_, _, -, hfinish⟩ := Job.bind_ok hfinish
    obtain ⟨_, _, -, hfinish⟩ := Job.bind_ok hfinish
    cases hfinish
  | fatal _ hfails =>
    rw [hwork] at hfails
    exact absurd (congrArg Prod.fst hfails) (hfatal _)
  | passed _ hpasses hreport =>
    rw [hwork] at hpasses
    exact ⟨_, _, _, hpasses, hreport, hfinish⟩

/-- What comes after the tests takes no change of the files back. -/
theorem changes_kept {before m₂ : Machine} {summary : Option Summary}
    (hreport : s.report.on before = (.ok summary, m₂))
    (hfinish : (s.finish scratch (.tested summary)).on m₂ = (.ok r, m')) :
    before.changes <:+ m'.changes := by
  obtain ⟨m₃, hpublish, -⟩ := finish_tested_ok hfinish
  have hreported : m₂.changes = before.changes :=
    ((upkeep_changes s.Closes before.changes).report fun _ h => h).leaves rfl hreport
  have hpublished : m₃.changes = m₂.changes :=
    ((upkeep_changes s.Closes m₂.changes).publish s.files).leaves
      ((upkeep_changes s.Closes m₂.changes).stopLog m₂ rfl) hpublish
  have hleft : Left [] m₃ m' := (finish_leaves hfinish).left hpublish
  obtain ⟨later, hlater, -⟩ := hleft.kept
  exact ⟨later, by rw [hlater, hpublished, hreported]⟩

theorem unmarked_lastMessages (h : s.Legible) (before : Machine) :
    ∀ text ∈ s.lastMessages before, Unmarked text := by
  intro text htext
  have hstamp := Clock.oneLine_runStamp before.clock
  simp only [lastMessages, List.mem_cons, List.not_mem_nil, or_false] at htext
  rcases htext with rfl | rfl | rfl
  · exact Foreign.shows (by decide) hstamp
  · exact Foreign.shows (by decide) h.setup.logFile
  · exact Text.unmarked_empty

/-- The counts of a log that ends in such messages. -/
theorem graphLines_last (h : s.Legible) (before : Machine) {category : Category}
    (hcategory : category ∈ [Category.error, .success]) :
    graphLines category (s.lastMessages before) = 0 := by
  have hnone : ∀ messages : List String, (∀ text ∈ messages, Unmarked text) →
      graphLines category messages = 0 := by
    intro messages hmessages
    induction messages with
    | nil => rfl
    | cons text rest ih =>
      obtain ⟨htext, hrest⟩ := List.forall_mem_cons.mp hmessages
      rw [Summary.graphLines_cons, Summary.graphLines_unmarked htext hcategory, ih hrest]
  exact hnone _ (unmarked_lastMessages h before)

theorem oneLine_directories (hcwd : OneLine s.cwd.text) (htargets : ∀ t ∈ targets, OneLine t.text)
    (hdirectories : targets.map (Target.classify m₁ · s.cwd) =
      directories.map fun d => some (.directory d)) : ∀ d ∈ directories, OneLine d.text := by
  intro d hd
  have hmem : some (Target.directory d) ∈ targets.map (Target.classify m₁ · s.cwd) := by
    rw [hdirectories]
    exact List.mem_map_of_mem hd
  obtain ⟨target, htarget, hclass⟩ := List.mem_map.mp hmem
  have hline : OneLine (s.named target).text :=
    Path.oneLine_normalize (Path.oneLine_div hcwd (htargets target htarget))
  rw [classify_named] at hclass
  split at hclass
  · cases hclass
    exact hline
  · split at hclass <;> cases hclass

/-- A session of directories that only makes graphs, that answers and that no fatal error ends. No tool
prints a line with a mark, and nothing shows a newline. -/
structure GraphRun (s : Session) (scratch : Scratch) (m m₁ : Machine) (targets directories : List Path)
    (r : Outcome) (m' : Machine) : Prop where
  graphing : s.settings.Graphing
  names : s.files.Resolved
  begins : s.Begins m scratch m₁
  answers : (s.run targets).on m = (.ok r, m')
  sorted : targets.map (Target.classify m₁ · s.cwd) = directories.map fun d => some (.directory d)
  unbroken : ∀ cause, ((s.execute scratch [] directories).on m₁).1 ≠ .error (.fatal cause)
  discreet : m₁.tools.Discreet
  legible : s.Legible
  named : ∀ t ∈ targets, OneLine t.text
  files : m₁.files.OneLine
  tidy : Tidy m'.changes

/-- What the summary of a session counts that only makes graphs, where `asked` are the commands that
its tests ask for. -/
structure Tallies (s : Session) (r : Outcome) (asked : List Asking) (summary : Summary) : Prop where
  answered : r.summary = some summary
  successes : summary.successes = graphSuccesses asked
  failures : summary.failures = graphFailures asked + keepingFailures asked
  /-- Without the timings of the compiler it counts nothing but attempts to make graphs. -/
  alone : s.settings.compPerformance = false → summary.failures = graphFailures asked

/-- The helpers that the tests ask, against the lines that count of what is told the log. -/
theorem GraphRun.account (h : s.GraphRun scratch m m₁ targets directories r m') :
    ∃ before summary m₂ asked told, (s.execute scratch [] directories).on m₁ = (.ok (), before) ∧
      s.report.on before = (.ok summary, m₂) ∧
      (s.finish scratch (.tested summary)).on m₂ = (.ok r, m') ∧
      Goes m₁ asked before ∧ before.notes = told.reverse ++ m₁.notes ∧
      graphSuccesses asked = graphLines .success told ∧
      graphFailures asked + keepingFailures asked = graphLines .error told ∧
      ∀ a ∈ asked, a.keeps = true → s.settings.compPerformance = true := by
  obtain ⟨before, summary, m₂, hexecute, hreport, hfinish⟩ :=
    run_passes h.begins h.answers h.sorted h.unbroken
  have hline := oneLine_directories h.legible.setup.cwd h.named h.sorted
  have hfaring : Faring (s.settings.compPerformance = true) m₁ m₁.changes 0 0 before :=
    (execute_steady h.graphing h.legible h.discreet hline).ok (.begun h.files) hexecute
  have hbefore : Tidy before.changes := fun ch hch =>
    h.tidy ch ((changes_kept hreport hfinish).subset hch)
  obtain ⟨asked, told, haccount⟩ := (hfaring.fair hbefore).2.account
  exact ⟨before, summary, m₂, asked, told, hexecute, hreport, hfinish, haccount⟩

theorem GraphRun.balances (h : s.GraphRun scratch m m₁ targets directories r m')
    (hu : s.Undisturbed m₁ m') : ∃ asked summary,
      Goes m₁ asked ((s.execute scratch [] directories).on m₁).2 ∧ s.Tallies r asked summary := by
  obtain ⟨before, summary, m₂, asked, told, hexecute, hreport, hfinish, hgoes, hnotes, hsuccesses,
    hfailures, hkeeps⟩ := h.account
  have hsince : Since s.files m₁ before :=
    ((Since.lasting scratch.path (fun _ => True) hu.tools).execute (fun _ _ => trivial) _ _).leaves
      (Since.refl (h.begins.tended hu.apart)) hexecute
  obtain ⟨new, hnew, hspares⟩ := hu.spared
  obtain ⟨told', summed, hnotes', haccounts⟩ :=
    accounts_of_report hsince hreport hfinish h.graphing.counted h.names hnew hspares
  -- What was told is what the log was scanned with, but for its last messages.
  obtain rfl : told = told' :=
    List.reverse_injective (List.append_cancel_right (hnotes.symm.trans hnotes'))
  have hcount : ∀ category ∈ [Category.error, .success],
      graphLines category (told ++ s.lastMessages before) = graphLines category told := by
    intro category hcategory
    rw [Summary.graphLines_append, graphLines_last h.legible before hcategory, Nat.add_zero]
  have hsummed : summed = Summary.tally .generating
      (Text.lines (written (told ++ s.lastMessages before))) := by
    rw [haccounts.counted, h.graphing.marker, Summary.ofLog_eq]
  have hsuccesses' : summed.successes = graphSuccesses asked := by
    rw [hsuccesses, ← hcount .success (by simp), hsummed]
    rfl
  have hfailures' : summed.failures = graphFailures asked + keepingFailures asked := by
    rw [hfailures, ← hcount .error (by simp), hsummed]
    rfl
  rw [hexecute]
  refine ⟨asked, summed, hgoes, haccounts.answered, hsuccesses', hfailures', fun halone => ?_⟩
  have hnone : keepingFailures asked = 0 := by
    refine List.countP_eq_zero.mpr fun a ha hfails => ?_
    rw [Bool.and_eq_true] at hfails
    exact Bool.false_ne_true (halone.symm.trans (hkeeps a ha hfails.1))
  rw [hfailures', hnone, Nat.add_zero]

/-- A session of directories whose tests pass comes to its end where the file system grants the
report. -/
theorem test_directories {before : Machine} {text : String}
    (hsorted : targets.map (Target.classify m₁ · s.cwd) = directories.map fun d => some (.directory d))
    (hpasses : (s.execute scratch [] directories).on m₁ = (.ok (), before))
    (htended : Tended s.files before text) (hkeepable : s.Keepable before) (hf : s.files.Distinct)
    (hclean : s.settings.cleanOnly = false) : ∃ summary m₂,
      (s.test scratch targets).on m₁ = (.ok (.tested summary), m₂) ∧ m₂.changes = before.changes := by
  obtain ⟨summary, m₂, hreport⟩ := report_succeeds htended hf hclean hkeepable
  have hsome : ((directories.map Target.directory).isEmpty && !targets.isEmpty) = false := by
    have hlength := congrArg List.length hsorted
    simp only [List.length_map] at hlength
    cases targets <;> cases directories <;> simp_all
  have hwork : s.work scratch (directories.map .directory) = s.execute scratch [] directories := by
    simp [work, List.filterMap_map, Target.file?, Target.directory?, Function.comp_def]
  have houtcome : (outcome (s.work scratch (directories.map .directory))).on m₁ =
      (.ok (.ok ()), before) := by
    rw [Job.on_outcome, hwork, hpasses]
  refine ⟨summary, m₂, ?_, ((upkeep_changes s.Closes before.changes).report fun _ h => h).leaves rfl
    hreport⟩
  rw [test_eq, Job.on_bind_ok (sortTargets_directories hsorted), testSorted_eq, hsome,
    if_neg Bool.false_ne_true, Job.on_bind_ok houtcome, answer, Job.on_bind_ok hreport]
  rfl

/-- Each attempt to make graphs tells how the graph helper ended, whatever that does: one for a
directory or a test is made where there is a graph file. The summary of a session counts by these lines,
and by those of timings that are not merged and commits that are not recorded. -/
theorem attempts_counted :
    (∀ (g : PerfGraphs) (d : Path) (m : Machine), g.OfDirectory d m) ∧
    (∀ (g : PerfGraphs) (test : Path) (m : Machine), g.OfTest test m) ∧
    (∀ (g : PerfGraphs) (testDirectory : Path) (perfLabel : String) (m : Machine),
      Attempt (fun _ => False) [] (g.listAsked testDirectory perfLabel m)
        (g.listAsked testDirectory perfLabel m).relayed (g.listLines testDirectory perfLabel m) m
        ((g.fromList testDirectory perfLabel).on m)) ∧
    (∀ (k : CompilerPerf) (context : Context) (tool : GraphTool) (testDirectory : Path) (m : Machine),
      Attempt (k.Stuck ((k.report context tool testDirectory).on m).2) [k.combiningAsked context m]
        (k.graphAsked context tool testDirectory m) (k.reportPrinted context tool testDirectory m)
        (k.reportLines context tool testDirectory m) m
        ((k.finish context tool testDirectory).on m)) ∧
    ∀ (s : Session) (scratch : Scratch) (m m₁ : Machine) (targets directories : List Path)
      (r : Outcome) (m' : Machine), s.GraphRun scratch m m₁ targets directories r m' →
      s.Undisturbed m₁ m' → ∃ asked summary,
        Goes m₁ asked ((s.execute scratch [] directories).on m₁).2 ∧ s.Tallies r asked summary :=
  ⟨PerfGraphs.ofDirectory, PerfGraphs.ofTest, PerfGraphs.fromList_attempts,
    CompilerPerf.finish_attempts, fun _ _ _ _ _ _ _ _ => GraphRun.balances⟩

end Session

namespace Graphed

/-- A compiler, a directory with a graph file, and what lies under the name of the log. -/
def files (log : List (Location × Node)) : FileTree :=
  { entries := [([], .directory .newDirectory), (["c"], .file 0 ⟨0o755⟩ []),
      (["t"], .directory .newDirectory), (["a.graph", "t"], .file 1 .newFile [])] ++ log
    serial := 2 }

/-- A machine on which every tool says something, but for the one that merges timings, which is not
found. -/
def machine (log : List (Location × Node)) : Machine :=
  { files := files log, clock := ⟨2024, 5, 1, 12, 0, 0, 0⟩, process := 1, scratchRoot := ⟨"/"⟩
    tools := fun _ command _ files =>
      if command.tool = "combineCompPerfData" then .error .notFound
      else .ok { written := [(.output, [109])], status := .exited 0, files } }

def session : Session :=
  { settings := { compiler := some ⟨"/c"⟩, genGraphs := true, compPerformance := true }
    environment := .ofList [("CHPL_TEST_TMP_DIR", "/"), ("CHPL_TEST_PERF_DIR", "/p"),
      ("CHPL_TEST_COMP_PERF_DIR", "/p"), ("HOSTNAME", "h")]
    cwd := ⟨"/"⟩
    layout :=
      { home := ⟨"/"⟩, utilDirectory := ⟨"/"⟩, testDirectory := ⟨"/"⟩, logsDirectory := ⟨"/"⟩
        specTests := false }
    toolchain := ⟨.empty⟩
    files := LogFiles.resolve ⟨"/"⟩ "u" "p" 1 (some ⟨"/w"⟩) ⟨"/"⟩ }

def scratch : Scratch := .given ⟨"/"⟩

def started (log : List (Location × Node)) : Machine := (session.openLog.on (machine log)).2

def tested (log : List (Location × Node)) : Machine :=
  ((session.execute scratch [] [⟨"/t"⟩]).on (started log)).2

variable {log : List (Location × Node)}

theorem tools_answer {earlier : List Command} {c : Command} {cwd : Location} {files : FileTree}
    {ended : Ended} (h : (machine log).tools earlier c cwd files = .ok ended) :
    ended = { written := [(.output, [109])], status := .exited 0, files } := by
  simp only [machine] at h
  split at h <;> cases h
  rfl

theorem tools_discreet (log : List (Location × Node)) : (machine log).tools.Discreet := by
  intro earlier c cwd files ended hrun
  have hprinted : Unmarked (Text.decodeLossy [109]) :=
    Foreign.unmarked (by decide) (OneLine.unmarkedBelow (by decide))
  rw [tools_answer hrun]
  exact ⟨hprinted, hprinted⟩

theorem tools_sound (log : List (Location × Node)) : (machine log).tools.Sound := by
  intro earlier c cwd files ended hrun hsound
  rw [tools_answer hrun]
  exact hsound

/-- The log is begun, on names that are apart and with nothing done before. -/
theorem log_begins : (session.openLog.on (machine [])).1 = .ok () ∧
    session.files.names = [⟨"/w"⟩, ⟨"/w"⟩, ⟨"/w.summary"⟩, ⟨"/w.summary"⟩] ∧
    ((started []).files.isSound = true ∧
      (started []).files.areApart (started []).directory session.files.names = true) ∧
    ((started []).changes = [] ∧ (started []).started = [] ∧ (started []).directory = []) ∧
    (∀ e ∈ (started []).files.entries, ∀ name ∈ e.1, OneLine name) ∧
    [(⟨"/t"⟩ : Path)].map (Target.classify (started []) · session.cwd) =
      [⟨"/t"⟩].map fun d => some (.directory d) := by
  decide +kernel

theorem begins (h : (session.openLog.on (machine log)).1 = .ok ()) :
    session.Begins (machine log) scratch (started log) := by
  refine ⟨machine log, rfl, ?_⟩
  rw [started]
  exact Job.on_of_result h

theorem apart : (started []).files.Apart (started []).directory session.files.names :=
  FileTree.apart_of_areApart (FileTree.sound_of_isSound log_begins.2.2.1.1) log_begins.2.2.1.2

theorem legible : session.Legible where
  setup :=
    { settings := ⟨by decide, by decide, by decide, by decide, by decide, by decide, by decide,
        by decide, by decide⟩
      cwd := by decide
      home := by decide
      logsDirectory := by decide
      logFile := by decide
      toolchain := by decide }
  testDirectory := by decide
  environment := by decide

/-- No tool changes the files. -/
theorem idle_lasting (log : List (Location × Node)) :
    Lasting scratch.path (fun _ => True) fun m => m.tools = (machine log).tools ∧
    ∀ ch ∈ m.changes, ch.tool.isSome = true → ch.after = ch.before := by
  refine ⟨⟨fun _ _ h => h, fun _ _ h => h, fun m c _ h => ?_⟩, fun m text h => ?_,
    fun m files _ h => ?_⟩
  · rw [Command.start_on]
    cases htool : m.tools m.commands c m.directory m.files with
    | error fault => exact h
    | ok ended =>
      rw [h.1] at htool
      obtain rfl := tools_answer htool
      exact ⟨h.1, List.forall_mem_cons.mpr ⟨fun _ => rfl, h.2⟩⟩
  · obtain ⟨files, log, console, hnote⟩ := note_records m text
    rw [hnote]
    exact h
  · exact ⟨h.1, List.forall_mem_cons.mpr ⟨nofun, h.2⟩⟩

/-- The tests pass, and the file system grants a report of them. Timings are merged once, no step makes
a name with a newline, and none of the session's own touches its log. -/
theorem tests_pass : ((session.execute scratch [] [⟨"/t"⟩]).on (started [])).1 = .ok () ∧
    ((tested []).files.read (tested []).directory session.files.tmpLogFile).isOk = true ∧
    ((tested []).files.openFile (tested []).directory session.files.tmpLogFile .append
      .newFile).isOk = true ∧
    ((tested []).files.openFile (tested []).directory session.files.tmpSummaryFile .afresh
      .newFile).isOk = true ∧
    (tested []).started.countP (fun c => c.tool == "combineCompPerfData") = 1 ∧
    ∀ ch ∈ (tested []).changes, (∀ e ∈ ch.after.entries, ∀ name ∈ e.1, OneLine name) ∧
      (ch.tool = none → ∀ p ∈ [(⟨"/w"⟩ : Path), ⟨"/w"⟩, ⟨"/w.summary"⟩, ⟨"/w.summary"⟩],
        ch.after.spot [] p = ch.before.spot [] p) := by
  decide +kernel

theorem executes (h : ((session.execute scratch [] [⟨"/t"⟩]).on (started log)).1 = .ok ()) :
    (session.execute scratch [] [⟨"/t"⟩]).on (started log) = (.ok (), tested log) := by
  rw [tested]
  exact Job.on_of_result h

theorem tested_spares : ∀ ch ∈ (tested []).changes,
    ch.Spares session.files.names (started []).directory := by
  have hexecutes : (session.execute scratch [] [⟨"/t"⟩]).Stays _ :=
    (idle_lasting []).execute (fun _ _ => trivial) _ _
  have hstarted : (started []).tools = (machine []).tools ∧
      ∀ ch ∈ (started []).changes, ch.tool.isSome = true → ch.after = ch.before := by
    refine ⟨rfl, fun ch hch => ?_⟩
    rw [log_begins.2.2.2.1.1] at hch
    cases hch
  have hidle := hexecutes.leaves hstarted (executes tests_pass.1)
  intro ch hch p hp
  cases htool : ch.tool with
  | some command => rw [hidle.2 ch hch (by rw [htool]; rfl)]
  | none =>
    rw [log_begins.2.1] at hp
    rw [log_begins.2.2.2.1.2.2]
    exact (tests_pass.2.2.2.2.2 ch hch).2 htool p hp

theorem resolved : session.files.Resolved := ⟨⟨"/"⟩, "u", "p", 1, some ⟨"/w"⟩, ⟨"/"⟩, rfl⟩

/-- The session answers, and changes nothing once its tests have passed. -/
theorem answers : ∃ r m', (session.run [⟨"/t"⟩]).on (machine []) = (.ok r, m') ∧
    m'.changes = (tested []).changes := by
  have hbegins : session.Begins (machine []) scratch (started []) := begins log_begins.1
  obtain ⟨hpasses, hread, hreopen, hsummary, -⟩ := tests_pass
  have hlasting : Lasting scratch.path (fun _ => True) (Since session.files (started [])) :=
    Since.lasting scratch.path _ (tools_sound [])
  have hexecutes : (session.execute scratch [] [⟨"/t"⟩]).Stays (Since session.files (started [])) :=
    hlasting.execute (fun _ _ => trivial) _ _
  have hsince : Since session.files (started []) (tested []) :=
    hexecutes.leaves (.refl (hbegins.tended apart)) (executes hpasses)
  obtain ⟨told, new, -, hnew, htended⟩ := hsince.kept
  rw [log_begins.2.2.2.1.1, List.append_nil] at hnew
  obtain ⟨summary, m₂, htest, hsame⟩ := Session.test_directories log_begins.2.2.2.2.2
    (executes hpasses) (htended (hnew ▸ tested_spares)) ⟨hread, hreopen, hsummary⟩ resolved.distinct rfl
  obtain ⟨m', hrun, hlast⟩ := Session.run_inPlace hbegins htest ⟨rfl, rfl⟩ rfl
  exact ⟨_, m', hrun, hlast.trans hsame⟩

/-- What is left to be seen of a run. -/
theorem graphRun {r : Outcome} {m' : Machine}
    (hbegins : session.Begins (machine log) scratch (started log))
    (hrun : (session.run [⟨"/t"⟩]).on (machine log) = (.ok r, m'))
    (htools : (started log).tools = (machine log).tools)
    (hsorted : [(⟨"/t"⟩ : Path)].map (Target.classify (started log) · session.cwd) =
      [⟨"/t"⟩].map fun d => some (.directory d))
    (hpasses : ((session.execute scratch [] [⟨"/t"⟩]).on (started log)).1 = .ok ())
    (hfiles : (started log).files.OneLine) (htidy : Tidy m'.changes) :
    session.GraphRun scratch (machine log) (started log) [⟨"/t"⟩] [⟨"/t"⟩] r m' where
  graphing := ⟨rfl, rfl, rfl⟩
  names := resolved
  begins := hbegins
  answers := hrun
  sorted := hsorted
  unbroken cause hfatal := by
    rw [hpasses] at hfatal
    cases hfatal
  discreet := htools ▸ tools_discreet log
  legible := legible
  named := by decide
  files := hfiles
  tidy := htidy

section Asked

variable {m : Machine} {asked : List Asking} (htools : (started log).tools = (machine log).tools)
  (hfirst : (started log).started = []) (h : Goes (started log) asked m)

include htools h in
/-- No tool fails but the one that is not found. -/
theorem asked_succeeds : ∀ a ∈ asked,
    a.succeeds = (a.command.tool != "combineCompPerfData") ∧ a.prints = a.succeeds := by
  intro a ha
  have hanswer : a.answer = if a.command.tool = "combineCompPerfData" then .error .notFound
      else .ok { written := [(.output, [109])], status := .exited 0, files := a.machine.files } := by
    rw [Asking.answer, h.tools.2 a ha, htools]
    rfl
  by_cases htool : a.command.tool = "combineCompPerfData" <;>
    simp [Asking.succeeds, Asking.prints, hanswer, htool, Command.printed, Status.code]

include hfirst h in
theorem asked_started (tool : String) : asked.countP (fun a => a.command.tool == tool) =
    m.started.countP (fun c => c.tool == tool) := by
  rw [h.commands, hfirst, List.nil_append, List.countP_map]
  rfl

include htools h in
theorem asked_graphs : graphFailures asked = 0 ∧
    graphSuccesses asked = asked.countP fun a => a.command.tool == "genGraphs" := by
  have hgraphs : ∀ a ∈ asked, a.graphs = true → a.succeeds = true := by
    intro a ha hgraphs
    rw [(asked_succeeds htools h a ha).1, beq_iff_eq.mp hgraphs]
    decide
  refine ⟨List.countP_eq_zero.mpr fun a ha => ?_, List.countP_congr fun a ha => ?_⟩
  · have hsucceeds := hgraphs a ha
    simp only [Bool.and_eq_true, Bool.not_eq_true', not_and, Bool.not_eq_false]
    exact hsucceeds
  · have hsucceeds := hgraphs a ha
    rw [Bool.and_eq_true, Asking.graphs] at *
    exact and_iff_left_of_imp hsucceeds

include htools hfirst h in
theorem asked_keeps : keepingFailures asked =
    m.started.countP fun c => c.tool == "combineCompPerfData" := by
  rw [← asked_started hfirst h]
  refine List.countP_congr fun a ha => ?_
  obtain ⟨hsucceeds, hprints⟩ := asked_succeeds htools h a ha
  simp only [Asking.keeps, hprints, hsucceeds]
  by_cases htool : a.command.tool = "combineCompPerfData" <;> simp [htool]

end Asked

theorem runs : ∃ r m', session.GraphRun scratch (machine []) (started []) [⟨"/t"⟩] [⟨"/t"⟩] r m' ∧
    session.Undisturbed (started []) m' := by
  obtain ⟨r, m', hrun, hlast⟩ := answers
  obtain ⟨hbegins, -, -, huntouched, hfiles, hsorted⟩ := log_begins
  refine ⟨r, m', graphRun (begins hbegins) hrun rfl hsorted tests_pass.1 hfiles ?_, apart,
    tools_sound [], (tested []).changes, ?_, tested_spares⟩
  · rw [hlast]
    exact fun ch hch => (tests_pass.2.2.2.2.2 ch hch).1
  · rw [hlast, huntouched.1, List.append_nil]

theorem attempts_counted_graphed : ∃ r m' asked summary,
    session.GraphRun scratch (machine []) (started []) [⟨"/t"⟩] [⟨"/t"⟩] r m' ∧
      session.Undisturbed (started []) m' ∧
      Goes (started []) asked ((session.execute scratch [] [⟨"/t"⟩]).on (started [])).2 ∧
      session.Tallies r asked summary := by
  obtain ⟨r, m', hgraphs, hundisturbed⟩ := runs
  obtain ⟨asked, summary, htallies⟩ :=
    Session.attempts_counted.2.2.2.2 _ _ _ _ _ _ _ _ hgraphs hundisturbed
  exact ⟨r, m', asked, summary, hgraphs, hundisturbed, htallies⟩

/-- A device under the name of the log. -/
def device : List (Location × Node) := [(["w"], .device none)]

/-- The log is begun, the tests pass, with three attempts to make graphs, and the session answers that
none has succeeded. -/
theorem device_runs :
    ((session.openLog.on (machine device)).1 = .ok () ∧ (started device).started = [] ∧
      (∀ e ∈ (started device).files.entries, ∀ name ∈ e.1, OneLine name) ∧
      [(⟨"/t"⟩ : Path)].map (Target.classify (started device) · session.cwd) =
        [⟨"/t"⟩].map fun d => some (.directory d)) ∧
    ((session.execute scratch [] [⟨"/t"⟩]).on (started device)).1 = .ok () ∧
    (tested device).started.countP (fun c => c.tool == "genGraphs") = 3 ∧
    (((session.run [⟨"/t"⟩]).on (machine device)).1.toOption.bind (·.summary)).map (·.successes) =
      some 0 ∧
    ∀ ch ∈ ((session.run [⟨"/t"⟩]).on (machine device)).2.changes,
      ∀ e ∈ ch.after.entries, ∀ name ∈ e.1, OneLine name := by
  decide +kernel

/-- Timings that are not merged count as failures although all attempts to make graphs succeed; and a
log that is a device keeps no success, however many there are. -/
theorem attempts_miscounted :
    (∃ r m' summary, session.GraphRun scratch (machine []) (started []) [⟨"/t"⟩] [⟨"/t"⟩] r m' ∧
      session.Undisturbed (started []) m' ∧ r.summary = some summary ∧ summary.failures = 1 ∧
      (∃ asked, Goes (started []) asked (tested [])) ∧
      ∀ asked, Goes (started []) asked (tested []) → graphFailures asked = 0) ∧
    ∃ r m' summary,
      session.GraphRun scratch (machine device) (started device) [⟨"/t"⟩] [⟨"/t"⟩] r m' ∧
      r.summary = some summary ∧ summary.successes = 0 ∧
      (∃ asked, Goes (started device) asked (tested device)) ∧
      ∀ asked, Goes (started device) asked (tested device) → graphSuccesses asked = 3 := by
  constructor
  · have htools : (started []).tools = (machine []).tools := rfl
    obtain ⟨r, m', hgraphs, hundisturbed⟩ := runs
    obtain ⟨asked, summary, hgoes, htallies⟩ := hgraphs.balances hundisturbed
    refine ⟨r, m', summary, hgraphs, hundisturbed, htallies.answered, ?_, ⟨asked, hgoes⟩,
      fun _ h => (asked_graphs htools h).1⟩
    have hkeeps : keepingFailures asked = 1 :=
      (asked_keeps htools log_begins.2.2.2.1.2.1 hgoes).trans tests_pass.2.2.2.2.1
    rw [htallies.failures, (asked_graphs htools hgoes).1, hkeeps]
  · have htools : (started device).tools = (machine device).tools := rfl
    obtain ⟨⟨hbegins, hfirst, hfiles, hsorted⟩, hpasses, hasked, hanswers, htidy⟩ := device_runs
    cases hrun : (session.run [⟨"/t"⟩]).on (machine device) with
    | mk result m' =>
      rw [hrun] at hanswers htidy
      cases result with
      | error e => cases hanswers
      | ok r =>
        obtain ⟨summary, hsummary, hzero⟩ := Option.map_eq_some_iff.mp hanswers
        have hgraphs := graphRun (begins hbegins) hrun htools hsorted hpasses hfiles htidy
        obtain ⟨before, -, -, asked, told, hexecute, -, -, hgoes, -⟩ := hgraphs.account
        rw [executes hpasses] at hexecute
        obtain rfl := (Prod.mk.inj hexecute).2
        refine ⟨r, m', summary, hgraphs, hsummary, hzero, ⟨asked, hgoes⟩, fun asked h => ?_⟩
        rw [(asked_graphs htools h).2, asked_started hfirst h, hasked]

end Graphed
end Regression
