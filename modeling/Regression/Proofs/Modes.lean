import Regression.Proofs.Fates
import Regression.Proofs.Launching

namespace Regression

/-- Tools that always give a machine the same name. -/
def Tools.Named (tools : Tools) : Prop :=
  ∀ host host', tools.Tell host → tools.Tell host' → host = host'

namespace Setup

variable {s : Setup} {e e' : Environment} {c : Context} {m m' : Machine}

theorem not_told {o : Settings} {name : String} (h : name ∉ modeNames) :
    name ∉ (modeBindings o).map Prod.fst := by
  intro hmem
  obtain ⟨b, hb, rfl⟩ := List.mem_map.mp hmem
  exact h (among_modeBindings o b hb)

/-- What was inherited under the names of modes that are on is lost. -/
theorem early_congr
    (h : ∀ name ∉ (modeBindings s.settings).map Prod.fst, e.get? name = e'.get? name) :
    s.early e = s.early e' := by
  have hthreads : e.get? threadsName = e'.get? threadsName := h _ (not_told (by decide))
  have hsame : threadBindings s.settings
        ((e.setAll (optionBindings s.settings)).setAll (valgrindBindings s.settings)) =
      threadBindings s.settings
        ((e'.setAll (optionBindings s.settings)).setAll (valgrindBindings s.settings)) := by
    rw [threadBindings, threadBindings,
      Environment.get?_setAll_congr (Environment.get?_setAll_congr hthreads)]
  simp only [early]
  rw [hsame]
  simp only [← Environment.setAll_append]
  refine Environment.setAll_congr fun name hname => h name fun hmem => hname ?_
  simp only [optionBindings, modeBindings, List.map_append, List.mem_append] at hmem ⊢
  tauto

/-- So is what was inherited under any name, once all that is exported is the same. -/
theorem exported_congr {tmp : Path} {host : Option String}
    (h : ∀ name ∉ (modeBindings s.settings).map Prod.fst, e.get? name = e'.get? name) :
    s.exported tmp host e = s.exported tmp host e' := by
  rw [exported, exported, launched, launched, beforeLaunch, beforeLaunch, early_congr h]

/-- What the log has been told stays in its record. -/
theorem noted_lasting (tmp : Path) (text : String) :
    Lasting tmp (fun _ => True) fun m => text ∈ m.notes := by
  refine ⟨⟨fun _ _ h => h, fun _ _ h => h, ?_⟩, ?_, fun _ _ _ h => h⟩
  · intro m c _ h
    rw [Command.start_on]
    cases m.tools m.commands c m.directory m.files <;> exact h
  · intro m line h
    obtain ⟨files, log, console, hnote⟩ := note_records m line
    rw [hnote]
    exact List.mem_cons_of_mem _ h

theorem trimEnd_performanceLine (o : Settings) :
    Text.trimEnd o.performanceLine = o.performanceLine := by
  unfold Settings.performanceLine
  cases o.performance <;> decide

/-- Once setup has succeeded the log tells whether tests measure performance. -/
theorem run_performanceLine {made : Context × PerfPlan}
    (h : (s.run c).on m = (.ok made, m')) : s.settings.performanceLine ∈ m'.notes := by
  have hfurnish : ∀ {P : Machine → Prop}, Lasting c.tmpDirectory (fun _ => True) P →
      Furnishing c.tmpDirectory (fun _ => True) s.settings (Context.Tmp c.tmpDirectory) P :=
    fun hP => hP.furnishing fun _ _ => trivial
  have hbefore := hfurnish (Lasting.tools c.tmpDirectory m.tools)
  have hafter := hfurnish (noted_lasting c.tmpDirectory s.settings.performanceLine)
  obtain ⟨⟨plan, c'⟩, m₁, harrange, hpure⟩ := Job.bind_ok h
  cases hpure
  obtain ⟨execopts, c₁, m₂, hoptions, harrange⟩ := Threaded.bind_ok harrange
  obtain ⟨_, c₂, m₃, hgeneral, harrange⟩ := Threaded.bind_ok harrange
  have hm₂ := hbefore.optionVariables (s := s) c rfl m rfl
  rw [hoptions] at hm₂
  have hm₃ := hbefore.general (s := s) c₁ (hm₂.2 _ rfl).2 m₂ hm₂.1
  rw [hgeneral] at hm₃
  have hc₂ : Context.Tmp c.tmpDirectory c₂ := (hm₃.2 _ rfl).2
  rw [performanceFlags_eq, bind_assoc] at harrange
  obtain ⟨_, m₄, hnote, harrange⟩ := Threaded.lift_bind_ok harrange
  obtain ⟨files, log, console, hrecord⟩ := note_records m₃ s.settings.performanceLine
  rw [hnote, trimEnd_performanceLine] at hrecord
  have hm₄ : s.settings.performanceLine ∈ m₄.notes := by
    have hnotes : m₄.notes = s.settings.performanceLine :: m₃.notes := congrArg Machine.notes hrecord
    rw [hnotes]
    exact List.mem_cons_self
  have hrest : Threaded.Keeps (fun m => s.settings.performanceLine ∈ m.notes)
      (Context.Tmp c.tmpDirectory) _ (Lasting.Planned c.tmpDirectory s.settings) :=
    (hafter.measuring (s := s)).after fun _ =>
      (hafter.executables (s := s) execopts).after fun _ =>
        hafter.performanceDirectories (s := s)
  exact (hrest c₂ hc₂).leaves hm₄ harrange

end Setup

/-- What a runner sees of the modes of a session. -/
structure Command.Told (c : Command) (o : Settings) : Prop where
  modes : ∀ name ∈ Setup.modeNames,
    c.environment.get? name = (Environment.ofList (Setup.modeBindings o)).get? name
  compOnly : c.environment.get? "CHPL_COMPONLY" ≠ none ↔ o.compOnly = true
  performance : c.environment.get? "CHPL_TEST_PERF" = some "on" ↔ o.performance = true
  /-- The log is scanned for what such runners print. -/
  marker : o.successMarker = .forRun
    (o.genGraphs && !decide (c.environment.get? "CHPL_TEST_PERF" = some "on"))
    (c.environment.get? "CHPL_COMPONLY").isSome

namespace Setup

theorem get?_only {e : Environment} {p : Prop} [Decidable p] {name n v : String} :
    (e.setAll (only p [(n, v)])).get? name = if p ∧ name = n then some v else e.get? name := by
  unfold only
  by_cases hp : p
  · rw [if_pos hp]
    exact (Environment.get?_set e n v).trans (by simp [hp])
  · simp [hp, Environment.setAll]

theorem get?_compOnly (o : Settings) :
    (Environment.ofList (modeBindings o)).get? "CHPL_COMPONLY" =
      if o.compOnly then some "true" else none := by
  have hlater : Among ["CHPL_TEST_PERF", "CHPL_TEST_PERF_LABEL", "CHPL_TEST_COMP_PERF"]
      (performanceBindings o) :=
    .append (.only (.cons (by decide) (.cons (by decide) .nil))) (.only (.cons (by decide) .nil))
  rw [Environment.ofList, modeBindings, Environment.setAll_append, Environment.setAll_append,
    hlater.get? (by decide), get?_only, get?_only]
  simp [Environment.get?, Environment.empty]

theorem get?_performance (o : Settings) :
    (Environment.ofList (modeBindings o)).get? "CHPL_TEST_PERF" =
      if o.performance then some "on" else none := by
  have hflag : ∀ e : Environment, (e.setAll (only o.performance
      [("CHPL_TEST_PERF", "on"), ("CHPL_TEST_PERF_LABEL", o.perfLabel)])).get? "CHPL_TEST_PERF" =
        if o.performance then some "on" else e.get? "CHPL_TEST_PERF" := by
    intro e
    unfold only
    split
    · change ((e.set _ _).set _ _).get? _ = _
      have hne : "CHPL_TEST_PERF" ≠ "CHPL_TEST_PERF_LABEL" := by decide
      rw [Environment.get?_set, if_neg hne, Environment.get?_set, if_pos rfl]
    · rfl
  rw [Environment.ofList, modeBindings, performanceBindings, Environment.setAll_append,
    Environment.setAll_append, Environment.setAll_append, get?_only, hflag, get?_only, get?_only]
  simp [Environment.get?, Environment.empty]

end Setup

theorem Command.told_of_modes {c : Command} {o : Settings}
    (h : ∀ name ∈ Setup.modeNames,
      c.environment.get? name = (Environment.ofList (Setup.modeBindings o)).get? name) :
    c.Told o := by
  have hcompOnly : c.environment.get? "CHPL_COMPONLY" = if o.compOnly then some "true" else none :=
    (h _ (by decide)).trans (Setup.get?_compOnly o)
  have hperformance : c.environment.get? "CHPL_TEST_PERF" =
      if o.performance then some "on" else none :=
    (h _ (by decide)).trans (Setup.get?_performance o)
  refine ⟨h, ?_, ?_, ?_⟩
  · rw [hcompOnly]
    cases o.compOnly <;> simp
  · rw [hperformance]
    cases o.performance <;> simp
  · rw [hcompOnly, hperformance]
    unfold Settings.successMarker Settings.graphsOnly
    cases o.compOnly <;> cases o.performance <;> simp

/-- What is laid over an environment for a runner, by the single test that it is told of. -/
def Settings.runnerVariables (o : Settings) : Option String → Bindings
  | some test => (Context.oneTestName, test) :: o.fileVariables
  | none => o.directoryVariables

/-- What a runner sees is known by the environment of the phases, its directory and its test. -/
theorem Parts.Provided.runner {r : Parts} {o : Settings} {files : List Path} {base : Environment}
    {c : Command} (h : r.Provided o files base) (hc : c ∈ r.tests) (htool : c.tool = "sub_test") :
    ∃ d, c.directory = some d ∧
      base.Overlaid (("PWD", d.text) :: o.runnerVariables c.single?) c.environment := by
  have hother : ∀ tool ∈ ["sub_clean", "genGraphs", "testEnv", "combineCompPerfData"],
      c.tool ≠ tool := by
    rw [htool]
    decide
  rcases List.mem_append.mp hc with hc | hc
  · obtain ⟨file, -, hc⟩ := h.files.exists_mem hc
    have hsingle := hc.single h.fresh
    rw [if_pos htool] at hsingle
    cases hc with
    | cleaner h => exact absurd h.tool (hother _ (by decide))
    | runner h =>
      rw [hsingle]
      exact ⟨_, h.directory, h.environment⟩
    | graphs h => exact absurd h.tool (hother _ (by decide))
  · rcases List.mem_append.mp hc with hc | hc
    · have hc := h.directories c hc
      have hsingle := hc.single h.fresh
      cases hc with
      | cleaner d h => exact absurd h.tool (hother _ (by decide))
      | runner d h =>
        rw [hsingle]
        exact ⟨d, h.directory, h.environment⟩
      | condition hcondition h => exact absurd hcondition (hother _ (by decide))
      | graphs h => exact absurd h.tool (hother _ (by decide))
    · cases h.conclusion c hc with
      | combine h => exact absurd h.tool (hother _ (by decide))
      | graphs h => exact absurd h.tool (hother _ (by decide))

namespace Session

variable {s : Session} {targets : List Path} {m m' : Machine}

/-- An environment that names no mode that is off. -/
def Unspoken (o : Settings) (e : Environment) : Prop :=
  ∀ name ∈ Setup.modeNames, name ∉ (Setup.modeBindings o).map Prod.fst → e.get? name = none

/-- Over such an environment the modes are told as over an empty one. -/
theorem Unspoken.get? {o : Settings} {e : Environment} (h : Unspoken o e) {name : String}
    (hname : name ∈ Setup.modeNames) : (e.setAll (Setup.modeBindings o)).get? name =
      (Environment.ofList (Setup.modeBindings o)).get? name := by
  rw [Environment.ofList, Environment.get?_setAll, Environment.get?_setAll]
  cases hvalue : (Setup.modeBindings o).reverse.lookup name with
  | some v => rfl
  | none =>
    rw [Option.none_or, Option.none_or, h name hname]
    · rfl
    · intro hmem
      obtain ⟨b, hb, rfl⟩ := List.mem_map.mp hmem
      have hother := List.lookup_eq_none_iff.mp hvalue b (List.mem_reverse.mpr hb)
      simp at hother

/-- What the runners of one session are told of the modes. -/
theorem Provides.told {r : Parts} (h : s.Provides targets m r)
    (he : Unspoken s.settings s.environment) {c : Command} (hc : c ∈ r.tests) :
    c.Told s.settings := by
  apply Command.told_of_modes
  intro name hname
  have hother : ∀ name ∈ Setup.modeNames, name ∉ Setup.plainNames ∧ name ∉ Setup.lateNames ∧
      name ∉ ownNames ∧ name ≠ "LAUNCHCMD" ∧
      name ∉ ["CHPL_TEST_UTIL_DIR", "CHPL_TEST_TMP_DIR", Context.oneTestName] := by decide
  obtain ⟨hplain, hlate, hown, hlaunch, hcreated⟩ := hother name hname
  rcases h.tests with hnone | ⟨p, files, m', harrives, -, hprovided⟩
  · rw [hnone] at hc
    cases hc
  · obtain ⟨scratch, m₁, host, -, -, hexported⟩ := harrives.exported
    rw [hprovided.get? hc hown, hexported, Setup.get?_exported hlate, if_neg hlaunch,
      Setup.get?_beforeLaunch hplain, ← he.get? hname]
    exact Environment.get?_setAll_congr (get?_created hcreated)

/-- The log has been told whether tests measure performance when they begin. -/
theorem Arrives.performanceLine {p : Phases} {files : List Path}
    (h : s.Arrives targets m p files m') : s.settings.performanceLine ∈ m'.notes := by
  obtain ⟨scratch, m₁, sorted, m₂, made, m₃, roots, -, -, hmade, -, -, hprelude⟩ := h
  have hm₃ := Setup.run_performanceLine hmade
  have hlasting := Setup.noted_lasting made.1.tmpDirectory s.settings.performanceLine
  have hfurnish : Furnishing made.1.tmpDirectory (fun _ => True) s.settings
      (Context.Tmp made.1.tmpDirectory) fun m => s.settings.performanceLine ∈ m.notes :=
    hlasting.furnishing fun _ _ => trivial
  exact (hfurnish.prelude (s := s) rfl _ _).leaves hm₃ hprelude

variable {e : Environment}

/-- Started with environments in which nothing differs but modes that are on, a session makes the same
environment for its phases. -/
theorem Arrives.alike {p p' : Phases} {files files' : List Path} {m₁ m₁' : Machine}
    (h : s.Arrives targets m p files m₁)
    (h' : Arrives { s with environment := e } targets m p' files' m₁') (hnamed : m.tools.Named)
    (hsame : ∀ name ∉ (Setup.modeBindings s.settings).map Prod.fst,
      s.environment.get? name = e.get? name) :
    p.context.environment = p'.context.environment := by
  obtain ⟨scratch, m₂, host, ⟨m₀, hscratch, -⟩, htold, hexported⟩ := h.exported
  obtain ⟨scratch', m₂', host', ⟨m₀', hscratch', -⟩, htold', hexported'⟩ := h'.exported
  have hhost : host' = host := hnamed _ _ htold' htold
  have hgiven : e.getFilled? "CHPL_TEST_TMP_DIR" = s.environment.getFilled? "CHPL_TEST_TMP_DIR" := by
    unfold Environment.getFilled?
    rw [hsame _ (Setup.not_told (by decide))]
  have hopen : openScratch { s with environment := e } = s.openScratch := by
    unfold openScratch
    simp only
    rw [hgiven]
  rw [hopen, hscratch] at hscratch'
  cases hscratch'
  rw [hexported, hexported', hhost]
  refine Setup.exported_congr fun name hname => ?_
  simp only [created, Context.create, Environment.get?_remove, Environment.get?_set, hsame name hname]

/-- What the runners see of a session that is started with two environments. -/
structure ToldAlike (s : Session) (e : Environment) (targets : List Path) (m : Machine)
    (r r' : Parts) : Prop where
  here : s.Provides targets m r
  there : Provides { s with environment := e } targets m r'
  /-- The runners of a directory or a file see the same. -/
  same : ∀ c ∈ r.tests, ∀ c' ∈ r'.tests, c.tool = "sub_test" → c'.tool = "sub_test" →
    c.directory = c'.directory → c.single? = c'.single? → c.environment = c'.environment
  told : ∀ c ∈ r.tests ++ r'.tests, c.Told s.settings
  /-- The log is headed by the line that tells how they work. -/
  headed : ∀ p files m', s.Arrives targets m p files m' ∨
      Arrives { s with environment := e } targets m p files m' →
    s.settings.performanceLine ∈ m'.notes

/-- Neither environment names a mode that is off, and nothing differs in them but modes. -/
theorem run_toldAlike (s : Session) (e : Environment) (targets : List Path) (m : Machine)
    (hdiffer : ∀ name ∉ Setup.modeNames, s.environment.get? name = e.get? name)
    (hhere : Unspoken s.settings s.environment) (hthere : Unspoken s.settings e)
    (hnamed : m.tools.Named) : ∃ r r', s.ToldAlike e targets m r r' := by
  have hsame : ∀ name ∉ (Setup.modeBindings s.settings).map Prod.fst,
      s.environment.get? name = e.get? name := by
    intro name hname
    by_cases hmode : name ∈ Setup.modeNames
    · rw [hhere name hmode hname, hthere name hmode hname]
    · exact hdiffer name hmode
  obtain ⟨r, hr⟩ := s.run_provides targets m
  obtain ⟨r', hr'⟩ := run_provides { s with environment := e } targets m
  refine ⟨r, r', hr, hr', ?_, ?_, ?_⟩
  · intro c hc c' hc' htool htool' hdirectory hsingle
    rcases hr.tests with hnone | ⟨p, files, m₁, harrives, -, hprovided⟩
    · rw [hnone] at hc
      cases hc
    rcases hr'.tests with hnone | ⟨p', files', m₁', harrives', -, hprovided'⟩
    · rw [hnone] at hc'
      cases hc'
    have hbase := harrives.alike harrives' hnamed hsame
    obtain ⟨d, hd, hsees⟩ := hprovided.runner hc htool
    obtain ⟨d', hd', hsees'⟩ := hprovided'.runner hc' htool'
    have hplace : d' = d := Option.some.inj (hd'.symm.trans (hdirectory.symm.trans hd))
    rw [← hbase, ← hsingle, hplace] at hsees'
    exact Environment.ext_get? fun name => (hsees name).trans (hsees' name).symm
  · intro c hc
    rcases List.mem_append.mp hc with hc | hc
    · exact hr.told hhere hc
    · exact hr'.told hthere hc
  · rintro p files m' (harrives | harrives)
    · exact harrives.performanceLine
    · exact harrives.performanceLine

end Session

namespace Bench

def plain : Environment := .ofList [("CHPL_TEST_TMP_DIR", "/t")]

/-- A session that only compiles, or does not. -/
def compiling (compOnly : Bool) (e : Environment) : Session :=
  { launching "" with
    settings := { compiler := some ⟨"/u/test/sub_test"⟩, compOnly }
    environment := e }

theorem silent_named : silent.tools.Named := by
  rintro _ _ ⟨_, _, _, _, _, _, rfl⟩ ⟨_, _, _, _, _, _, rfl⟩
  rfl

/-- Another value that is inherited for the mode makes no difference where the mode is on. -/
theorem run_toldAlike_compiling : ∃ r r',
    (compiling true (plain.set "CHPL_COMPONLY" "no")).ToldAlike plain [⟨"/t/a.chpl"⟩] silent r r' ∧
      ∃ c ∈ r.tests, c.tool = "sub_test" ∧ c.environment.get? "CHPL_COMPONLY" = some "true" := by
  have hdiffer : ∀ name ∉ Setup.modeNames,
      (plain.set "CHPL_COMPONLY" "no").get? name = plain.get? name := by
    intro name hname
    rw [Environment.get?_set, if_neg]
    rintro rfl
    exact hname (by decide)
  have hunspoken : Session.Unspoken (compiling true plain).settings
        (plain.set "CHPL_COMPONLY" "no") ∧
      Session.Unspoken (compiling true plain).settings plain := by
    unfold Session.Unspoken
    decide +kernel
  obtain ⟨r, r', halike⟩ := Session.run_toldAlike (compiling true (plain.set "CHPL_COMPONLY" "no"))
    plain [⟨"/t/a.chpl"⟩] silent hdiffer hunspoken.1 hunspoken.2 silent_named
  have hruns : ∃ c ∈ (((compiling true (plain.set "CHPL_COMPONLY" "no")).run [⟨"/t/a.chpl"⟩]).on
      silent).2.started, c.tool = "sub_test" ∧
        c.environment.get? "CHPL_COMPONLY" = some "true" := by
    decide +kernel
  obtain ⟨c, hc, htool, hcompOnly⟩ := hruns
  exact ⟨r, r', halike, c, halike.here.runner rfl rfl hc htool, htool, hcompOnly⟩

/-- A mode that is off is never taken back, so that a runner goes on to see what was inherited. -/
theorem inherited_mode_seen :
    (∀ name ∉ Setup.modeNames, (plain.set "CHPL_COMPONLY" "true").get? name = plain.get? name) ∧
      (∃ c ∈ (((compiling false (plain.set "CHPL_COMPONLY" "true")).run [⟨"/t/a.chpl"⟩]).on
        silent).2.started, c.tool = "sub_test" ∧ c.directory = some ⟨"/t"⟩ ∧
          c.single? = some "a.chpl" ∧ c.environment.get? "CHPL_COMPONLY" = some "true") ∧
      ∃ c ∈ (((compiling false plain).run [⟨"/t/a.chpl"⟩]).on silent).2.started,
        c.tool = "sub_test" ∧ c.directory = some ⟨"/t"⟩ ∧ c.single? = some "a.chpl" ∧
          c.environment.get? "CHPL_COMPONLY" = none := by
  refine ⟨?_, by decide +kernel, by decide +kernel⟩
  intro name hname
  rw [Environment.get?_set, if_neg]
  rintro rfl
  exact hname (by decide)

end Bench

end Regression
