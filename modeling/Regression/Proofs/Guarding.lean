import Regression.Proofs.FatalEnd
import Regression.Proofs.Inheritance

namespace Regression

/-- What a tool of the tests has from the context that setup has made. -/
structure Command.Equipped (c : Command) (context : Context) : Prop where
  compiler : c.tool = "sub_test" → c.arguments = [context.compiler.text]
  scripts : ∀ name ∈ ["CHPL_SYSTEM_PREEXEC", "CHPL_SYSTEM_PREDIFF"],
    c.environment.get? name = context.get? name

/-- A runner is told the compiler. -/
theorem Phases.Trace.runner_arguments {p : Phases} {files : List Path} {m : Machine} {r : Parts}
    (h : p.Trace files m r) {c : Command} (hc : c ∈ r.tests) (htool : c.tool = "sub_test") :
    c.arguments = [p.context.compiler.text] := by
  have hcleaner : "sub_clean" ≠ "sub_test" ∧ "testEnv" ≠ "sub_test" ∧ "genGraphs" ≠ "sub_test" ∧
      "combineCompPerfData" ≠ "sub_test" := by decide
  obtain ⟨hclean, hcondition, hgraphs, hcombine⟩ := hcleaner
  rcases List.mem_append.mp hc with hc | hc
  · obtain ⟨file, -, hc⟩ := h.files.exists_mem hc
    cases hc with
    | cleaner => exact absurd ((cleaner_worksIn p.overlaid_file _).tool.symm.trans htool) hclean
    | runner m => rfl
    | graphs arguments trailing d =>
      exact absurd ((p.tool_command arguments trailing d).tool.symm.trans htool) hgraphs
  · rcases List.mem_append.mp hc with hc | hc
    · cases h.directories c hc with
      | cleaner d =>
        exact absurd ((cleaner_worksIn p.overlaid_directory none).tool.symm.trans htool) hclean
      | runner m d => rfl
      | condition d script =>
        have hother : (Skip.question p.directoryContext d script).tool = "testEnv" :=
          Command.tool_join rfl (by decide) (by decide)
        exact absurd (hother.symm.trans htool) hcondition
      | graphs arguments trailing d =>
        exact absurd ((p.tool_command arguments trailing d).tool.symm.trans htool) hgraphs
    · cases h.conclusion c hc with
      | @combine k hk seconds =>
        have hother : (k.combineCommand p.context seconds).tool = "combineCompPerfData" :=
          Command.tool_join rfl (by decide) (by decide)
        exact absurd (hother.symm.trans htool) hcombine
      | graphs arguments trailing d =>
        exact absurd ((p.tool_command arguments trailing d).tool.symm.trans htool) hgraphs

namespace Session

variable {s : Session} {targets : List Path} {m m₁ m₂ m₃ : Machine} {scratch : Scratch}
  {sorted : List Target} {cause : Fatal}

/-- The setup of a session that has something to test, from the machine on which its targets are
sorted, `m₁` being the one on which it has begun its log. -/
structure SetsUp (s : Session) (targets : List Path) (m : Machine) (scratch : Scratch)
    (m₁ m₂ : Machine) (result : Except Error (Context × PerfPlan)) (m₃ : Machine) : Prop where
  begins : s.Begins m scratch m₁
  sorts : ∃ sorted, (s.sortTargets targets).on m₁ = (.ok sorted, m₂)
  named : targets = [] ∨ ∃ target ∈ targets, (Target.classify m₁ target s.cwd).isSome
  setup : (s.setup.run (s.created scratch)).on m₂ = (result, m₃)

/-- What becomes of a session whose setup has failed with a fatal error. -/
structure Refuses (s : Session) (targets : List Path) (m m₁ : Machine) (cause : Fatal) : Prop where
  asked : ∃ asked, ((s.run targets).on m).2.started = m.started ++ asked ∧
    ∀ c ∈ asked, c.tool ∉ testingTools
  /-- Besides the targets that name nothing its log is told of that error alone, once. -/
  told : ∃ before after, ((s.run targets).on m).2.notes.reverse =
      m.notes.reverse ++ s.complaints m₁ targets ++ (before ++ cause.line :: after) ∧
    ∀ text ∈ before ++ after, Text.startsWith text "[Error" = false

/-- What setup has to do with the rest of a session. -/
structure Guarded (s : Session) (targets : List Path) (m : Machine) : Prop where
  /-- What works for the tests is started only when setup has made sure of all that it looks at. -/
  vetted : ∃ asked, ((s.run targets).on m).2.started = m.started ++ asked ∧
    ∀ c ∈ asked, c.tool ∈ testingTools → ∃ scratch m₁ m₂ made m₃,
      s.SetsUp targets m scratch m₁ m₂ (.ok made) m₃ ∧ s.setup.Vetted m₂ made.1 m₃ ∧
        c.Equipped made.1
  /-- Unless it makes sure of that it fails, by an error of the files or of the log or by a fatal
  one. -/
  ended : ∀ scratch m₁ m₂ result m₃, s.SetsUp targets m scratch m₁ m₂ result m₃ →
    s.setup.Ends m₂ result m₃
  refused : ∀ scratch m₁ m₂ cause m₃,
    s.SetsUp targets m scratch m₁ m₂ (.error (.fatal cause)) m₃ → s.Refuses targets m m₁ cause

/-- A session has told its log of nothing when it has begun it. -/
theorem Begins.notes (h : s.Begins m scratch m₁) : m₁.notes = m.notes := by
  obtain ⟨m₀, hscratch, hlog⟩ := h
  have hupkeep : Upkeep (fun _ => False) fun m₁ => m₁.notes = m.notes :=
    ⟨fun _ _ h => h, fun _ _ hnone => hnone.elim, fun _ _ h => h, fun _ _ _ _ _ _ h => h,
      fun _ _ _ _ _ h => h, fun _ _ _ _ _ h => h, fun _ _ _ _ h => h⟩
  have hopen : s.openScratch.Stays fun m₁ => m₁.notes = m.notes :=
    openScratch_stays (fun _ h => h) fun _ _ _ _ h => h
  exact hupkeep.openLog.leaves (hopen.leaves rfl hscratch) hlog

/-- Where setup fails, nothing of what works for the tests is started. -/
theorem run_refuses (h : s.SetsUp targets m scratch m₁ m₂ (.error (.fatal cause)) m₃) :
    s.Refuses targets m m₁ cause := by
  obtain ⟨sorted, hsort⟩ := h.sorts
  have hsorts := sortTargets_ok hsort
  constructor
  · obtain ⟨r, hprovides⟩ := s.run_provides targets m
    have hnone : r.tests = [] := by
      refine hprovides.tests.resolve_right ?_
      rintro ⟨p, files, m', hstages, -⟩
      obtain ⟨scratch', m₁', sorted', m₂', made, m₃', roots, hbegins, hsort', hmade, -⟩ := hstages
      obtain ⟨rfl, rfl⟩ := h.begins.unique hbegins
      rw [hsort] at hsort'
      cases hsort'
      rw [h.setup] at hmade
      cases hmade
    refine ⟨r.all, hprovides.started, fun c hc htool => ?_⟩
    have htest := hprovides.tester hc htool
    rw [hnone] at htest
    cases htest
  · have hsome := sorted_of_named hsort h.named
    have hwork : (s.work scratch sorted).on m₂ = (.error (.fatal cause), m₃) := by
      rw [work, execute_eq, Job.on_bind, h.setup]
    obtain ⟨after, hafter, hplain⟩ := broken_told h.begins (test_broken hsort hsome hwork)
    have hends := s.setup.run_ends (s.created scratch) m₂
    rw [h.setup] at hends
    cases hends with
    | refused hviolates hquiet =>
      have hbefore : ∃ told, m₃.notes = told ++ m₂.notes ∧
          ∀ text ∈ told, Text.startsWith text "[Error" = false := hquiet.told
      obtain ⟨before, hbefore, hplain'⟩ := hbefore
      refine ⟨before.reverse, after.reverse, ?_, ?_⟩
      · simp only [hafter, hbefore, List.reverse_append, List.reverse_cons, hsorts.told,
          h.begins.notes, complaints,
          List.append_assoc, List.nil_append, List.cons_append]
      · exact List.forall_mem_append.mpr ⟨fun text ht => hplain' text (List.mem_reverse.mp ht),
          fun text ht => hplain text (List.mem_reverse.mp ht)⟩

/-- A session that has nothing to test starts nothing. -/
theorem untested_started (hbegins : s.Begins m scratch m₁)
    (hsort : (s.sortTargets targets).on m₁ = (.ok sorted, m₂))
    (hnone : (sorted.isEmpty && !targets.isEmpty) = true) :
    ((s.run targets).on m).2.started = m.started := by
  have hupkeep : Upkeep s.Closes (Onward (fun _ => False) m₁) := Onward.upkeep
  have hsorted : Onward (fun _ => False) m₁ m₂ :=
    ((Onward.lasting scratch.path).sortTargets targets).leaves .refl hsort
  have htest : (s.test scratch targets).on m₁ = (.ok .untested, m₂) := by
    rw [test_eq, Job.on_bind_ok hsort, testSorted_eq, if_pos hnone]
    rfl
  have hclean : (s.cleanUp scratch).Stays (Onward (fun _ => False) m₁) :=
    (hupkeep.publish _).after fun _ => Onward.closeScratch scratch
  have hfinish : (s.finish scratch .untested).Stays (Onward (fun _ => False) m₁) := by
    unfold finish
    exact (Job.Keeps.lift hupkeep.stopLog).after fun _ => hclean.after fun _ => Job.Keeps.given _
  have hrun : Onward (fun _ => False) m₁ ((s.run targets).on m).2 := by
    rw [run_on hbegins, htest]
    simp only
    cases hend : (s.finish scratch .untested).on m₂ with
    | mk answer m₃ =>
      have hlast := hfinish.leaves hsorted hend
      cases answer with
      | error e => exact (Onward.closeScratch scratch m₃ hlast).1
      | ok r => exact hlast
  rw [hrun.idle, hbegins.started]

theorem run_vetted (s : Session) (targets : List Path) (m : Machine) :
    ∃ asked, ((s.run targets).on m).2.started = m.started ++ asked ∧
      ∀ c ∈ asked, c.tool ∈ testingTools → ∃ scratch m₁ m₂ made m₃,
        s.SetsUp targets m scratch m₁ m₂ (.ok made) m₃ ∧ s.setup.Vetted m₂ made.1 m₃ ∧
          c.Equipped made.1 := by
  obtain ⟨r, htrace⟩ := s.run_trace targets m
  refine ⟨r.all, htrace.started, fun c hc htool => ?_⟩
  have htest : c ∈ r.tests := Parts.tester (fun c hc => ((htrace.provides).1 c hc).provided.1)
    (fun c hc => (htrace.conversion c hc).2 ▸ junitCommand_other _) hc htool
  have hstarts : ((s.run targets).on m).2.started ≠ m.started := by
    intro hidle
    rw [htrace.started, List.append_right_eq_self] at hidle
    rw [hidle] at hc
    cases hc
  rcases htrace.works with hempty | ⟨scratch, m₁, sorted, m₂, hbegins, hsort, -, htests⟩
  · rw [(List.append_eq_nil_iff.mp hempty).2] at htest
    cases htest
  · rcases htests with hempty | ⟨made, m₃, roots, m₄, hmade, hfresh, hroots, hphases⟩
    · rw [hempty] at htest
      cases htest
    · have hnamed : targets = [] ∨
          ∃ target ∈ targets, (Target.classify m₁ target s.cwd).isSome := by
        by_contra hnot
        obtain ⟨hne, hinvalid⟩ := not_or.mp hnot
        refine hstarts (untested_started hbegins hsort ((sortTargets_ok hsort).isEmpty_iff.mpr
          ⟨hne, fun target hmem => Option.not_isSome_iff_eq_none.mp fun hsome => ?_⟩))
        exact hinvalid ⟨target, hmem, hsome⟩
      have hends := s.setup.run_ends (s.created scratch) m₂
      rw [hmade] at hends
      cases hends with
      | vetted hvetted =>
        have hprovided := hphases.provided hfresh.oneTest
        refine ⟨scratch, m₁, m₂, made, m₃, ⟨hbegins, ⟨sorted, hsort⟩, hnamed, hmade⟩, hvetted,
          fun htool => hphases.runner_arguments htest htool, fun name hname => ?_⟩
        have hother : ∀ n ∈ ["CHPL_SYSTEM_PREEXEC", "CHPL_SYSTEM_PREDIFF"], n ∉ ownNames := by
          decide
        exact hprovided.get? htest (hother name hname)

/-- Whatever the settings, the toolchain and the environment of a session are, on every machine. -/
theorem run_guarded (s : Session) (targets : List Path) (m : Machine) : s.Guarded targets m := by
  refine ⟨s.run_vetted targets m, fun scratch m₁ m₂ result m₃ h => ?_,
    fun _ _ _ _ _ h => run_refuses h⟩
  have hends := s.setup.run_ends (s.created scratch) m₂
  rwa [h.setup] at hends

end Session

namespace Bench

/-- A session that is to keep how fast the compiler is, which lies where the timings are
gathered. -/
def clearing : Session :=
  { inheriting with
    settings :=
      { compiler := some ⟨"/t/tempCompPerfDatFiles/chpl"⟩, compPerformance := true
        logFile := some ⟨"/n"⟩ }
    environment := .ofList [("CHPL_TEST_COMP_PERF_DIR", "/t"), ("CHPL_TEST_PERF_CONFIG_NAME", "n"),
      ("CHPL_TEST_TMP_DIR", "/t")] }

def gathered : Machine :=
  { silent with
    files :=
      { silent.files with
        entries := silent.files.entries ++
          [(["tempCompPerfDatFiles", "t"], .directory .newDirectory),
            (["chpl", "tempCompPerfDatFiles", "t"], .file 2 .newDirectory [])]
        serial := 3 } }

/-- When setup ends, the compiler that it gives to the runners may be gone: it has looked at it
before it cleared away what lay where the timings are to be gathered. -/
theorem compiler_cleared : ∃ scratch m₁ m₂ made m₃,
    clearing.SetsUp [⟨"/t/a.chpl"⟩] gathered scratch m₁ m₂ (.ok made) m₃ ∧
      (∃ c ∈ ((clearing.run [⟨"/t/a.chpl"⟩]).on gathered).2.started,
        c.tool = "sub_test" ∧ c.arguments = [made.1.compiler.text]) ∧
      m₃.isExecutable made.1.compiler = false := by
  let started : Machine := (clearing.openLog.on gathered).2
  have hends : ((clearing.setup.run (clearing.created (.given ⟨"/t"⟩))).on started).1.toOption.map
        (fun made => made.1.compiler) = some ⟨"/t/tempCompPerfDatFiles/chpl"⟩ ∧
      ((clearing.setup.run (clearing.created (.given ⟨"/t"⟩))).on started).2.isExecutable
        ⟨"/t/tempCompPerfDatFiles/chpl"⟩ = false := by decide +kernel
  have hruns : ∃ c ∈ ((clearing.run [⟨"/t/a.chpl"⟩]).on gathered).2.started,
      c.tool = "sub_test" ∧ c.arguments = ["/t/tempCompPerfDatFiles/chpl"] := by decide +kernel
  have hbegins : clearing.Begins gathered (.given ⟨"/t"⟩) started :=
    ⟨gathered, rfl, Prod.ext (by decide +kernel) rfl⟩
  have hsort : (clearing.sortTargets [⟨"/t/a.chpl"⟩]).on started =
      (.ok [.file ⟨"/t/a.chpl"⟩], started) := rfl
  cases hsetup : (clearing.setup.run (clearing.created (.given ⟨"/t"⟩))).on started with
  | mk result m₃ =>
    rw [hsetup] at hends
    cases result with
    | error e => cases hends.1
    | ok made =>
      have hcompiler : made.1.compiler = ⟨"/t/tempCompPerfDatFiles/chpl"⟩ :=
        Option.some.inj hends.1
      refine ⟨.given ⟨"/t"⟩, started, started, made, m₃,
        ⟨hbegins, ⟨_, hsort⟩, .inr ⟨⟨"/t/a.chpl"⟩, List.mem_cons_self, rfl⟩, hsetup⟩, ?_, ?_⟩
      · rw [hcompiler]
        exact hruns
      · rw [hcompiler]
        exact hends.2

end Bench

end Regression
