import Regression.Proofs.Exports
import Regression.Proofs.Provision
import Regression.Proofs.Runs

namespace Regression

namespace Environment

/-- The names that a text refers to. -/
def references : List Char → List String
  | [] => []
  | c :: cs =>
    if c = '$' then
      let later := references (reference cs).rest
      if (reference cs).name.isEmpty then later else String.ofList (reference cs).name :: later
    else references cs
termination_by cs => cs.length
decreasing_by
  all_goals simp only [List.length_cons]
  · exact Nat.lt_succ_of_le (rest_le cs)
  · exact Nat.lt_succ_self _

variable {e e' : Environment}

theorem valueOf_congr {name : List Char}
    (h : name ≠ [] → e.get? (String.ofList name) = e'.get? (String.ofList name)) :
    e.valueOf name = e'.valueOf name := by
  cases name with
  | nil => rfl
  | cons c cs =>
    unfold valueOf
    rw [h (List.cons_ne_nil c cs)]

theorem references_dollar (cs : List Char) : references ('$' :: cs) =
    if (reference cs).name.isEmpty then references (reference cs).rest
    else String.ofList (reference cs).name :: references (reference cs).rest := by
  rw [references, if_pos rfl]

/-- An expansion depends on nothing but the variables that the text refers to. -/
theorem expandList_congr {cs : List Char}
    (h : ∀ name ∈ references cs, e.get? name = e'.get? name) :
    e.expandList cs = e'.expandList cs := by
  induction cs using references.induct with
  | case1 => rw [expandList, expandList]
  | case2 cs hunnamed ih =>
    rw [references_dollar, if_pos hunnamed] at h
    have hvalue : e.valueOf (reference cs).name = e'.valueOf (reference cs).name :=
      valueOf_congr fun hne => absurd (List.isEmpty_iff.mp hunnamed) hne
    rw [expandList, expandList, if_pos rfl, if_pos rfl, hvalue, ih h]
  | case3 cs hnamed ih =>
    rw [references_dollar, if_neg hnamed] at h
    obtain ⟨hhere, hlater⟩ := List.forall_mem_cons.mp h
    have hvalue : e.valueOf (reference cs).name = e'.valueOf (reference cs).name :=
      valueOf_congr fun _ => hhere
    rw [expandList, expandList, if_pos rfl, if_pos rfl, hvalue, ih hlater]
  | case4 c cs hother ih =>
    rw [references, if_neg hother] at h
    rw [expandList, expandList, if_neg hother, if_neg hother, ih h]

theorem expand_congr {text : String}
    (h : ∀ name ∈ references text.toList, e.get? name = e'.get? name) :
    e.expand text = e'.expand text := by
  rw [expand, expand, expandList_congr h]

/-- A variable bound to what it is elsewhere, or unbound. -/
def bindAs (e : Environment) (name : String) : Option String → Environment
  | some value => e.set name value
  | none => e.remove name

theorem get?_bindAs {name n : String} (v : Option String) :
    (e.bindAs n v).get? name = if name = n then v else e.get? name := by
  cases v with
  | none => exact get?_remove e n
  | some v => exact get?_set e n v

end Environment

namespace Setup

variable {s : Setup} {tmp : Path} {host : Option String} {e : Environment} {name : String}

/-- The variables by which setup tells the runners which mode they work in. -/
def modeNames : List String :=
  ["CHPL_MEM_LEAK_TESTING", "CHPL_COMPONLY", "CHPL_TEST_PERF", "CHPL_TEST_PERF_LABEL",
    "CHPL_TEST_COMP_PERF"]

/-- The others that it may set before it expands the launch command. -/
def plainNames : List String :=
  ["CHPL_NO_STDIN_REDIRECT", "CHPL_TEST_FORCE_STDIN_REDIRECT", "CHPL_LAUNCHER_TIMEOUT",
    "CHPL_TEST_NUM_TRIALS", "CHPL_TEST_ROOT_DIR", "CHPL_TEST_VGRND_COMP", "CHPL_TEST_VGRND_EXE",
    threadsName, "CHPL_RT_NUM_THREADS_PER_LOCALE_QUIET", "COMPOPTS", "EXECOPTS"]

/-- Those that it may set when it has expanded it. -/
def lateNames : List String :=
  ["CHPL_COMM", "CHPL_GASNET_SEGMENT", "CHPL_LAUNCHER", "CHPL_NETWORK_ATOMICS",
    "CHPL_LOCALE_MODEL", "CHPL_LLVM", "CHPL_TASKS", "CHPL_NO_STDIN_REDIRECT",
    "CHPL_LAUNCHER_TIMEOUT", "NUMLOCALES", "CHPL_TEST_MAX_LOCALES", "CHPL_TEST_MULTILOCALE_ONLY",
    "CHPL_SYSTEM_PREEXEC", "CHPL_SYSTEM_PREDIFF", "CHPL_TEST_PERF_DIR",
    "CHPL_TEST_PERF_DESCRIPTION", "CHPL_TEST_COMP_PERF_TEMP_DAT_DIR"]

/-- A mode is told where its option is set; nothing is said of the others. -/
def modeBindings (o : Settings) : Bindings :=
  only (o.memLeaks || o.memLeaksLog.isSome) [("CHPL_MEM_LEAK_TESTING", "true")] ++
    (only o.compOnly [("CHPL_COMPONLY", "true")] ++ performanceBindings o)

theorem among_modeBindings (o : Settings) : Among modeNames (modeBindings o) := by
  have hperformance : Among modeNames (performanceBindings o) :=
    .append (.only (.cons (by decide) (.cons (by decide) .nil))) (.only (.cons (by decide) .nil))
  refine .append (.only (.cons (by decide) .nil)) ?_
  exact .append (.only (.cons (by decide) .nil)) hperformance

theorem among_plainOptions (o : Settings) : Among plainNames
    (stdinBindings o ++ (given "CHPL_LAUNCHER_TIMEOUT" o.launcherTimeout ++ trialBindings o)) := by
  have hstdin : Among plainNames (stdinBindings o) :=
    .only (.cons (by decide) (.only (.cons (by decide) .nil)))
  have htrials : Among plainNames (trialBindings o) := .cons (by decide) (.given (by decide) _)
  exact .append hstdin (.append (.given (by decide) _) htrials)

theorem among_valgrindBindings (o : Settings) : Among plainNames (valgrindBindings o) := by
  unfold valgrindBindings
  split <;> exact .cons (by decide) (.cons (by decide) .nil)

theorem among_threadBindings (o : Settings) (e : Environment) :
    Among plainNames (threadBindings o e) :=
  .only (.append (.only (.cons (by decide) .nil)) (.cons (by decide) .nil))

/-- When the launch command is expanded, the modes have been told over what was there before. -/
theorem get?_beforeLaunch (h : name ∉ plainNames) :
    (s.beforeLaunch e).get? name = (e.setAll (modeBindings s.settings)).get? name := by
  have hprograms : Among plainNames s.programBindings :=
    .cons (by decide) (.cons (by decide) .nil)
  rw [beforeLaunch, hprograms.get? h, early, modeBindings, ← List.append_assoc,
    Environment.setAll_append]
  apply Environment.get?_setAll_congr
  rw [(among_threadBindings _ _).get? h, (among_valgrindBindings _).get? h, optionBindings,
    ← List.append_assoc, Environment.setAll_append, (among_plainOptions _).get? h]

theorem get?_configured (h : name ∉ lateNames) : (s.configured e).get? name = e.get? name := by
  have hscripts : Among lateNames s.scriptBindings :=
    .append (.only (.cons (by decide) .nil)) (.only (.cons (by decide) .nil))
  have hlocales : Among lateNames s.localeBindings :=
    .cons (by decide) (.append (.only (.cons (by decide) .nil)) (.only (.cons (by decide) .nil)))
  have hredirection : ∀ e, Among lateNames (redirectionBindings s.toolchain.launcher e) :=
    fun _ => .only (.cons (by decide) .nil)
  have htimeout : ∀ e, Among lateNames (timeoutBindings s.toolchain.launcher e) := fun _ =>
    .only (.append (.only (.cons (by decide) .nil)) (.only (.cons (by decide) .nil)))
  have hconfiguration : Among lateNames (configurationBindings s.toolchain) := by
    simp [Among, configurationBindings, lateNames]
  rw [configured, hscripts.get? h, hlocales.get? h, (htimeout _).get? h, (hredirection _).get? h,
    hconfiguration.get? h]

theorem get?_measured (h : name ∉ lateNames) :
    (s.measured tmp host e).get? name = e.get? name := by
  have hgraphs : Among lateNames (s.graphBindings host e) :=
    .only (.append (.only (.cons (by decide) .nil)) (.only (.cons (by decide) .nil)))
  have htimings : Among lateNames (timingBindings s.settings tmp) := .only (.cons (by decide) .nil)
  rw [measured, htimings.get? h, hgraphs.get? h]

/-- The launch command is expanded before the last variables are set. -/
theorem get?_exported (h : name ∉ lateNames) : (s.exported tmp host e).get? name =
    if name = "LAUNCHCMD" then some ((s.beforeLaunch e).expand s.launchCmd)
    else (s.beforeLaunch e).get? name := by
  rw [exported, late, get?_measured h, get?_configured h, launched, Environment.get?_set]

end Setup

/-- The variables that a phase, a directory or a file has values of its own for. -/
def ownNames : List String :=
  ["PWD", Context.oneTestName, "CHPL_TEST_FUTURES", "CHPL_TEST_NOTESTS", "CHPL_TEST_SINGLES"]

namespace Parts.Provided

variable {r : Parts} {o : Settings} {files : List Path} {base : Environment} {c : Command}
  {name : String}

theorem overlaid (hname : name ∉ ownNames) {vars : Bindings} {e : Environment}
    (h : base.Overlaid vars e) (hvars : Setup.Among ownNames vars) : e.get? name = base.get? name := by
  rw [h, hvars.lookup hname, Option.none_or]

/-- All other variables are for all tools as setup has made them. -/
theorem get? (h : r.Provided o files base) (hc : c ∈ r.tests) (hname : name ∉ ownNames) :
    c.environment.get? name = base.get? name := by
  have hfile : ∀ value, Setup.Among ownNames (("PWD", value) :: o.fileVariables) := fun _ => by
    simp [Setup.Among, Settings.fileVariables, ownNames]
  have hdirectory : Setup.Among ownNames o.directoryVariables := by
    simp [Setup.Among, Settings.directoryVariables, ownNames]
  rcases List.mem_append.mp hc with hc | hc
  · obtain ⟨file, -, hc⟩ := h.files.exists_mem hc
    cases hc with
    | cleaner h => exact overlaid hname h.environment (hfile _)
    | runner h =>
      apply overlaid hname h.environment
      simp [Setup.Among, Settings.fileVariables, ownNames]
    | graphs h => rw [h.environment]
  · rcases List.mem_append.mp hc with hc | hc
    · cases h.directories c hc with
      | cleaner d h => exact overlaid hname h.environment (.cons (by decide) hdirectory)
      | runner d h => exact overlaid hname h.environment (.cons (by decide) hdirectory)
      | condition htool h => exact overlaid hname h hdirectory
      | graphs h => rw [h.environment]
    · cases h.conclusion c hc with
      | combine h => rw [h.environment]
      | graphs h => rw [h.environment]

end Parts.Provided

namespace Session

variable {s : Session} {targets : List Path} {m m' : Machine} {p : Phases} {files : List Path}

/-- A session begins with the tools that the machine has. -/
theorem Begins.tools {scratch : Scratch} {m₁ : Machine} (h : s.Begins m scratch m₁) :
    m₁.tools = m.tools := by
  obtain ⟨m₀, hscratch, hlog⟩ := h
  have hupkeep : Upkeep (fun _ => True) fun m₁ => m₁.tools = m.tools := by
    refine ⟨fun _ _ h => h, fun m₁ text _ h => ?_, fun _ _ h => h, fun _ _ _ _ _ _ h => h,
      fun _ _ _ _ _ h => h, fun _ _ _ _ _ h => h, fun _ _ _ _ h => h⟩
    exact (Lasting.tools ⟨""⟩ _).note m₁ text h
  have hopen : s.openScratch.Stays fun m₁ => m₁.tools = m.tools :=
    openScratch_stays (fun _ h => h) fun _ _ _ _ h => h
  exact hupkeep.openLog.leaves (hopen.leaves rfl hscratch) hlog

/-- Whether the directory for the runners is given or made, the context begins with the variables of
the session. -/
theorem get?_created {scratch : Scratch} {name : String}
    (h : name ∉ ["CHPL_TEST_UTIL_DIR", "CHPL_TEST_TMP_DIR", Context.oneTestName]) :
    (s.created scratch).environment.get? name = s.environment.get? name := by
  simp only [List.mem_cons, List.not_mem_nil, or_false, not_or] at h
  obtain ⟨hutil, htmp, hone⟩ := h
  rw [created, Context.create, Environment.get?_remove, if_neg hone, Environment.get?_set,
    if_neg htmp, Environment.get?_set, if_neg hutil]

/-- The context of the phases is one that setup has made of the environment of the session. -/
theorem Arrives.exported (h : s.Arrives targets m p files m') : ∃ scratch m₁ host,
    s.Begins m scratch m₁ ∧ m.tools.Tell host ∧
      p.context.environment =
        s.setup.exported scratch.path host (s.created scratch).environment := by
  obtain ⟨scratch, m₁, sorted, m₂, made, m₃, roots, hbegins, hsort, hmade, rfl, -⟩ := h
  obtain ⟨host, htold, hexported⟩ := Setup.run_exports hmade
  have htools : m₂.tools = m.tools :=
    ((Lasting.tools scratch.path m.tools).sortTargets targets).leaves hbegins.tools hsort
  exact ⟨scratch, m₁, host, hbegins, htools ▸ htold, hexported⟩

/-- A reference to the launch command itself stands for the one that the session was started with. -/
theorem run_launches (s : Session) (targets : List Path) (m : Machine)
    (hrefs : ∀ name ∈ Environment.references s.setup.launchCmd.toList,
      name ∉ Setup.lateNames ∧ name ∉ ownNames) :
    ∃ r, s.Provides targets m r ∧ ∀ c ∈ r.tests, c.environment.get? "LAUNCHCMD" =
      some ((c.environment.bindAs "LAUNCHCMD" (s.environment.get? "LAUNCHCMD")).expand
        s.setup.launchCmd) := by
  obtain ⟨r, hprovides⟩ := s.run_provides targets m
  refine ⟨r, hprovides, fun c hc => ?_⟩
  rcases hprovides.tests with hnone | ⟨p, files, m', harrives, -, hprovided⟩
  · rw [hnone] at hc
    cases hc
  · obtain ⟨scratch, m₁, host, -, -, hexported⟩ := harrives.exported
    have hlaunch : "LAUNCHCMD" ∉ Setup.modeNames ∧ "LAUNCHCMD" ∉ Setup.plainNames ∧
        "LAUNCHCMD" ∉ Setup.lateNames ∧ "LAUNCHCMD" ∉ ownNames ∧
        "LAUNCHCMD" ∉ ["CHPL_TEST_UTIL_DIR", "CHPL_TEST_TMP_DIR", Context.oneTestName] := by decide
    obtain ⟨hmode, hplain, hlate, hown, hcreated⟩ := hlaunch
    rw [hprovided.get? hc hown, hexported, Setup.get?_exported hlate, if_pos rfl]
    congr 1
    refine Environment.expand_congr fun name hname => ?_
    obtain ⟨hlate', hown'⟩ := hrefs name hname
    rw [Environment.get?_bindAs]
    split
    · next heq =>
      rw [heq, Setup.get?_beforeLaunch hplain, (Setup.among_modeBindings _).get? hmode,
        get?_created hcreated]
    · next hne =>
      rw [hprovided.get? hc hown', hexported, Setup.get?_exported hlate', if_neg hne]

/-- A runner that a session has started is one of its tests. -/
theorem Provides.runner {r : Parts} {c : Command} (h : s.Provides targets m r)
    (hstarted : m.started = []) (hjunit : s.settings.junitXml = false)
    (hc : c ∈ ((s.run targets).on m).2.started) (htool : c.tool = "sub_test") : c ∈ r.tests := by
  rw [h.started, hstarted, List.nil_append, Parts.all] at hc
  rcases List.mem_append.mp hc with hsetup | hc
  · have hother := (h.setup c hsetup).1
    rw [htool] at hother
    exact absurd hother (by decide)
  · rcases List.mem_append.mp hc with htests | hconversion
    · exact htests
    · obtain ⟨hon, -⟩ := h.conversion c hconversion
      rw [hjunit] at hon
      cases hon

end Session

namespace Bench

/-- A machine with a device that takes a log and keeps none of it. -/
def silent : Machine :=
  { machine "" 0 with files := { files with entries := files.entries ++ [(["n"], .device none)] } }

/-- A session on two locales that is started where seven are asked for. -/
def launching (command : String) : Session :=
  { settings :=
      { compiler := some ⟨"/u/test/sub_test"⟩, launchCmd := some command, numLocales := 2 }
    environment := .ofList [("CHPL_TEST_TMP_DIR", "/t"), ("NUMLOCALES", "7")]
    cwd := ⟨"/"⟩
    layout := phases.layout
    toolchain := ⟨.empty⟩
    files := LogFiles.resolve ⟨"/t"⟩ "u" "p" 1 (some ⟨"/n"⟩) ⟨"/"⟩ }

theorem run_launches_options : ∃ r, (launching "run $COMPOPTS").Provides [⟨"/t/a.chpl"⟩] silent r ∧
    ∃ c ∈ r.tests, c.tool = "sub_test" ∧ c.environment.get? "LAUNCHCMD" = some "run --cc-warnings" := by
  have hrefs : ∀ name ∈ Environment.references (launching "run $COMPOPTS").setup.launchCmd.toList,
      name ∉ Setup.lateNames ∧ name ∉ ownNames := by decide +kernel
  obtain ⟨r, hprovides, hlaunches⟩ := Session.run_launches (launching "run $COMPOPTS")
    [⟨"/t/a.chpl"⟩] silent hrefs
  have hruns : ∃ c ∈ (((launching "run $COMPOPTS").run [⟨"/t/a.chpl"⟩]).on silent).2.started,
      c.tool = "sub_test" ∧
        (c.environment.bindAs "LAUNCHCMD" none).expand "run $COMPOPTS" = "run --cc-warnings" := by
    decide +kernel
  obtain ⟨c, hc, htool, hexpanded⟩ := hruns
  have htest : c ∈ r.tests := hprovides.runner rfl rfl hc htool
  refine ⟨r, hprovides, c, htest, htool, ?_⟩
  rw [hlaunches c htest]
  exact congrArg some hexpanded

/-- The number of locales is set when the launch command has been expanded, so that a reference to it
stands for what was inherited. -/
theorem launch_precedes_locales :
    ∃ c ∈ (((launching "srun -N $NUMLOCALES").run [⟨"/t/a.chpl"⟩]).on silent).2.started,
      c.tool = "sub_test" ∧ c.environment.get? "NUMLOCALES" = some "2" ∧
        c.environment.get? "LAUNCHCMD" = some "srun -N 7" := by
  decide +kernel

end Bench

end Regression
