import Regression.Proofs.Cleaning
import Regression.Proofs.Launching

namespace Regression

/-- The variables that are dropped; a single test is told to the runners of named files again. -/
def droppedNames : List String := ["CHPL_DEVELOPER", "CHPL_EXE_NAME", "LC_ALL", Context.oneTestName]

/-- The variables that a session may set for its tests. -/
def exportedNames : List String :=
  ["LC_COLLATE", "LANG", "CHPL_RT_UNWIND", "CHPL_TEST_UTIL_DIR", "CHPL_TEST_TMP_DIR",
    "CHPL_MEM_LEAK_TESTING", "CHPL_COMPONLY", "CHPL_NO_STDIN_REDIRECT",
    "CHPL_TEST_FORCE_STDIN_REDIRECT", "CHPL_LAUNCHER_TIMEOUT", "CHPL_TEST_NUM_TRIALS",
    "CHPL_TEST_ROOT_DIR", "CHPL_TEST_VGRND_COMP", "CHPL_TEST_VGRND_EXE",
    "CHPL_RT_NUM_THREADS_PER_LOCALE", "CHPL_RT_NUM_THREADS_PER_LOCALE_QUIET", "CHPL_TEST_PERF",
    "CHPL_TEST_PERF_LABEL", "CHPL_TEST_COMP_PERF", "COMPOPTS", "EXECOPTS", "LAUNCHCMD",
    "CHPL_COMM", "CHPL_GASNET_SEGMENT", "CHPL_LAUNCHER", "CHPL_NETWORK_ATOMICS",
    "CHPL_LOCALE_MODEL", "CHPL_LLVM", "CHPL_TASKS", "NUMLOCALES", "CHPL_TEST_MAX_LOCALES",
    "CHPL_TEST_MULTILOCALE_ONLY", "CHPL_SYSTEM_PREEXEC", "CHPL_SYSTEM_PREDIFF",
    "CHPL_TEST_PERF_DIR", "CHPL_TEST_PERF_DESCRIPTION", "CHPL_TEST_COMP_PERF_TEMP_DAT_DIR",
    "CHPL_TEST_FUTURES", "CHPL_TEST_NOTESTS", "CHPL_TEST_SINGLES", "PWD"]

/-- The tools that work for the tests alone. -/
def testingTools : List String := ["sub_test", "sub_clean", "testEnv", "genGraphs"]

/-- What a tool that may be told of one of certain tests sees of an environment. -/
structure Command.Inherits (c : Command) (e : Environment) (tests : List String) : Prop where
  kept : ∀ name, name ∉ droppedNames → name ∉ exportedNames →
    c.environment.get? name = e.get? name
  dropped : ∀ name ∈ droppedNames, name ≠ Context.oneTestName → c.environment.get? name = none
  single : ∀ test, c.single? = some test → c.tool = "sub_test" ∧ test ∈ tests

section Prepared

variable {e : Environment} {name : String}

/-- The variables that stand for the language and for unwinding, whatever was inherited. -/
def preparedNames : List String := ["LC_COLLATE", "LANG", "CHPL_RT_UNWIND"]

theorem get?_prepared (hdropped : name ∉ droppedNames) (hset : name ∉ preparedNames) :
    (prepareEnvironment e).get? name = e.get? name := by
  simp only [droppedNames, preparedNames, List.mem_cons, not_or] at hdropped hset
  obtain ⟨hdeveloper, hprogram, hall, -⟩ := hdropped
  obtain ⟨hcollate, hlanguage, hunwind, -⟩ := hset
  simp only [prepareEnvironment, Environment.get?_remove, Environment.get?_set, if_neg hall,
    if_neg hlanguage, if_neg hcollate]
  split
  · rw [Environment.get?_set, if_neg hunwind, Environment.get?_remove, if_neg hprogram,
      Environment.get?_remove, if_neg hdeveloper]
  · rw [Environment.get?_remove, if_neg hprogram, Environment.get?_remove, if_neg hdeveloper]

theorem get?_prepared_dropped (h : name ∈ droppedNames) (hone : name ≠ Context.oneTestName) :
    (prepareEnvironment e).get? name = none := by
  simp only [droppedNames, List.mem_cons, List.not_mem_nil, or_false] at h
  rcases h with rfl | rfl | rfl | rfl
  · simp only [prepareEnvironment]
    split <;> simp [Environment.get?_remove, Environment.get?_set]
  · simp only [prepareEnvironment]
    split <;> simp [Environment.get?_remove, Environment.get?_set]
  · simp [prepareEnvironment, Environment.get?_remove]
  · exact absurd rfl hone

end Prepared

/-- Such tools are started by the tests alone. -/
theorem Parts.tester {r : Parts} (hsetup : ∀ c ∈ r.setup, c.tool ∈ preparingTools)
    (hconversion : ∀ c ∈ r.conversion, c.tool ∉ testingTools) {c : Command} (hc : c ∈ r.all)
    (htool : c.tool ∈ testingTools) : c ∈ r.tests := by
  have hpreparing : ∀ tool ∈ testingTools, tool ∉ preparingTools := by decide
  rcases List.mem_append.mp hc with hc | hc
  · exact absurd (hsetup c hc) (hpreparing _ htool)
  · exact (List.mem_append.mp hc).resolve_right fun hc => hconversion c hc htool

namespace Session

variable {s : Session} {targets : List Path} {m m' : Machine} {p : Phases} {files : List Path}
  {r : Parts} {c : Command} {name : String}

/-- Setup leaves all variables alone that it has no name for. -/
theorem Arrives.get? (h : s.Arrives targets m p files m') (hexported : name ∉ exportedNames)
    (hone : name ≠ Context.oneTestName) :
    p.context.environment.get? name = s.environment.get? name := by
  have hnames : "LAUNCHCMD" ∈ exportedNames ∧ (∀ n ∈ Setup.lateNames, n ∈ exportedNames) ∧
      (∀ n ∈ Setup.plainNames, n ∈ exportedNames) ∧ (∀ n ∈ Setup.modeNames, n ∈ exportedNames) ∧
      ∀ n ∈ ["CHPL_TEST_UTIL_DIR", "CHPL_TEST_TMP_DIR", Context.oneTestName],
        n = Context.oneTestName ∨ n ∈ exportedNames := by decide
  obtain ⟨hlaunch, hlate, hplain, hmode, hcreated⟩ := hnames
  obtain ⟨scratch, m₁, host, -, -, henvironment⟩ := h.exported
  have hother : name ≠ "LAUNCHCMD" := fun heq => hexported (heq ▸ hlaunch)
  rw [henvironment, Setup.get?_exported fun hmem => hexported (hlate _ hmem), if_neg hother,
    Setup.get?_beforeLaunch fun hmem => hexported (hplain _ hmem),
    (Setup.among_modeBindings _).get? fun hmem => hexported (hmode _ hmem)]
  exact get?_created fun hmem => (hcreated _ hmem).elim hone hexported

/-- So do the phases. -/
theorem Provides.get? (h : s.Provides targets m r) (hc : c ∈ r.tests)
    (hexported : name ∉ exportedNames) (hone : name ≠ Context.oneTestName) :
    c.environment.get? name = s.environment.get? name := by
  have hown : ∀ n ∈ ownNames, n = Context.oneTestName ∨ n ∈ exportedNames := by decide
  rcases h.tests with hnone | ⟨p, files, m', harrives, -, hprovided⟩
  · rw [hnone] at hc
    cases hc
  · rw [hprovided.get? hc fun hmem => (hown _ hmem).elim hone hexported,
      harrives.get? hexported hone]

/-- A single test is one that was named. -/
theorem Provides.named (h : s.Provides targets m r) (hc : c ∈ r.tests) {test : String}
    (hsingle : c.single? = some test) :
    c.tool = "sub_test" ∧ test ∈ targets.map fun target => Runner.nameOf (s.named target) := by
  have hsome : c.single? ≠ none := by rw [hsingle]; exact Option.some_ne_none _
  obtain ⟨hfile, htool⟩ := (h.alone c (List.mem_append_right _ hc)).mp hsome
  rcases h.tests with hnone | ⟨p, files, m', harrives, -, hprovided⟩
  · rw [hnone] at hc
    cases hc
  · obtain ⟨file, hmem, hfor⟩ := hprovided.files.exists_mem hfile
    have hname := hfor.single hprovided.fresh
    rw [if_pos htool, hsingle, Option.some.injEq] at hname
    obtain ⟨_, _, _, _, _, _, _, -, -, -, -, hfiles, -⟩ := harrives
    rw [hfiles] at hmem
    obtain ⟨target, htarget, rfl⟩ := List.mem_map.mp (List.mem_of_mem_filter hmem)
    exact ⟨htool, List.mem_map.mpr ⟨target, htarget, hname.symm⟩⟩

theorem junitCommand_other (s : Session) : s.junitCommand.tool ∉ testingTools := by
  rw [s.junitCommand_tool]
  decide

theorem Provides.tester (h : s.Provides targets m r) (hc : c ∈ r.all)
    (htool : c.tool ∈ testingTools) : c ∈ r.tests := by
  refine Parts.tester (fun c hc => (h.setup c hc).1) (fun c hc => ?_) hc htool
  rw [(h.conversion c hc).2]
  exact junitCommand_other _

/-- What a session is set up with. -/
theorem create_ok {o : Settings} {e : Environment} {cwd : Path}
    (h : (Session.create o e cwd).on m = (.ok s, m')) : ∃ layout m₁ defaults m₂,
      (Layout.discover (prepareEnvironment e) o.testRoot cwd).on m = (.ok layout, m₁) ∧
      (ProjectDefaults.discover cwd).on m₁ = (.ok defaults, m₂) ∧
      s.environment = prepareEnvironment e ∧
      s.settings =
        ((defaults.elim o o.applyDefaults).applyEnvironment (prepareEnvironment e)).normalize := by
  unfold create at h
  obtain ⟨layout, m₁, hlayout, h⟩ := Job.bind_ok h
  obtain ⟨defaults, m₂, hdefaults, h⟩ := Job.bind_ok h
  obtain ⟨queried, m₃, -, h⟩ := Job.bind_ok h
  obtain ⟨_, m₄, -, h⟩ := Job.bind_ok h
  cases h
  refine ⟨layout, m₁, defaults, m₂, hlayout, hdefaults, rfl, ?_⟩
  cases defaults <;> rfl

/-- Whatever the toolchain is and the tools do, on every machine, and also where the session
fails. -/
theorem run_inherits {settings : Settings} {e : Environment} {cwd : Path}
    (hmade : (Session.create settings e cwd).on m = (.ok s, m')) (toolchain : Toolchain)
    (targets : List Path) (before : Machine) : ∃ asked,
      (({ s with toolchain }.run targets).on before).2.started = before.started ++ asked ∧
      ∀ c ∈ asked, c.tool = "sub_test" ∨ c.tool = "sub_clean" →
        c.Inherits e (targets.map fun target => Runner.nameOf (s.named target)) := by
  obtain ⟨r, hprovides⟩ := run_provides { s with toolchain } targets before
  refine ⟨r.all, hprovides.started, fun c hc htool => ?_⟩
  have htesting : c.tool ∈ testingTools := by
    rcases htool with htool | htool <;> rw [htool] <;> decide
  have htest : c ∈ r.tests := hprovides.tester hc htesting
  have hone : Context.oneTestName ∈ droppedNames := by decide
  obtain ⟨_, _, _, _, -, -, hprepared, -⟩ := create_ok hmade
  have hset : ∀ n ∈ preparedNames, n ∈ exportedNames := by decide
  refine ⟨fun name hdropped hexported => ?_, fun name hdropped hne => ?_, fun test hsingle => ?_⟩
  · have hother : name ≠ Context.oneTestName := fun heq => hdropped (heq ▸ hone)
    calc c.environment.get? name
        = s.environment.get? name := hprovides.get? htest hexported hother
      _ = e.get? name := by
        rw [hprepared, get?_prepared hdropped fun hmem => hexported (hset _ hmem)]
  · have hapart : ∀ n ∈ droppedNames, n ∉ exportedNames := by decide
    calc c.environment.get? name
        = s.environment.get? name := hprovides.get? htest (hapart name hdropped) hne
      _ = none := by rw [hprepared, get?_prepared_dropped hdropped hne]
  · exact hprovides.named htest hsingle

end Session

namespace Bench

def inherited : Environment :=
  .ofList [("CHPL_HOME", "/"), ("CHPL_TEST_TMP_DIR", "/t"), ("CHPL_TEST_UTIL_DIR", "/u"),
    ("LC_ALL", "C"), ("PATH", "/bin")]

/-- What is made of these variables where no toolchain says anything. -/
def inheriting : Session :=
  { settings := { compiler := some ⟨"/u/test/sub_test"⟩, logFile := some ⟨"/n"⟩ }
    environment := prepareEnvironment inherited
    cwd := ⟨"/"⟩
    layout :=
      { home := ⟨"/"⟩, utilDirectory := ⟨"/u"⟩, testDirectory := ⟨"/"⟩, logsDirectory := ⟨"/Logs"⟩
        specTests := false }
    toolchain := .ofEnvironment (prepareEnvironment inherited)
    files := LogFiles.resolve ⟨"/Logs"⟩ "unknown" "none" 1 (some ⟨"/n"⟩) ⟨"/"⟩ }

theorem run_inherits_path : ∃ made : Machine,
    (Session.create inheriting.settings inherited ⟨"/"⟩).on silent = (.ok inheriting, made) ∧
      ∃ c ∈ (({ inheriting with toolchain := ⟨.empty⟩ }.run [⟨"/t/a.chpl"⟩]).on silent).2.started,
        c.tool = "sub_test" ∧ c.environment.get? "PATH" = some "/bin" ∧
          c.environment.get? "LC_ALL" = none := by
  have hanswer : ((Session.create inheriting.settings inherited ⟨"/"⟩).on silent).1 =
      .ok inheriting := by rfl
  obtain ⟨made, hmade⟩ : ∃ made,
      (Session.create inheriting.settings inherited ⟨"/"⟩).on silent = (.ok inheriting, made) :=
    ⟨_, Prod.ext hanswer rfl⟩
  have hruns : ∃ c ∈ (({ inheriting with toolchain := ⟨.empty⟩ }.run [⟨"/t/a.chpl"⟩]).on
      silent).2.started, c.tool = "sub_test" := by decide +kernel
  obtain ⟨asked, hstarted, hinherits⟩ :=
    Session.run_inherits hmade ⟨.empty⟩ [⟨"/t/a.chpl"⟩] silent
  obtain ⟨c, hc, htool⟩ := hruns
  have hasked : c ∈ asked := by
    rw [hstarted] at hc
    exact (List.mem_append.mp hc).resolve_left List.not_mem_nil
  obtain ⟨hkept, hdropped, -⟩ := hinherits c hasked (.inl htool)
  have hpath : inherited.get? "PATH" = some "/bin" := by decide +kernel
  refine ⟨made, hmade, c, hc, htool, ?_, hdropped "LC_ALL" (by decide) (by decide)⟩
  rw [hkept "PATH" (by decide) (by decide), hpath]

end Bench

end Regression
