import Regression.Proofs.Deeds
import Regression.Proofs.Exports
import Regression.Proofs.Plan
import Regression.Proofs.Walk

namespace Regression

variable {m : Machine} {c : Command} {p : Phases} {fires : Path → Path → Bool}

/-- The machines that a run comes by from `m` on: after named files, after the deeds of a pass, and
when the helper has been asked about a marker. -/
inductive Phases.Reaches (p : Phases) (m : Machine) : Machine → Prop where
  | start : p.Reaches m m
  | file {file : Path} {m₁ m₂ : Machine} (before : p.Reaches m m₁)
    (done : (p.singleFile file).on m₁ = (.ok (), m₂)) : p.Reaches m m₂
  | deed {mode : RunMode} {deed : Deed} {m₁ m₂ : Machine} (before : p.Reaches m m₁)
    (pass : mode ∈ p.settings.directoryPasses)
    (done : deed.Done p.directoryContext mode p.handle m₁ m₂) : p.Reaches m m₂
  | asked {m₁ : Machine} (before : p.Reaches m m₁) (d script : Path) :
    p.Reaches m ((attempt (Skip.question p.directoryContext d script).capture).on m₁).2

/-- What no step of the tests takes away, all machines have that a run comes by. -/
theorem Phases.Reaches.lasts {m' : Machine} {tmp : Path} {P : Machine → Prop}
    (hP : Lasting tmp (fun _ => True) P) (h : p.Reaches m m') (hm : P m) : P m' := by
  induction h with
  | start => exact hm
  | file _ done ih => exact (hP.singleFile fun _ _ => trivial).leaves ih done
  | @deed mode deed _ _ _ _ done ih =>
    cases deed with
    | noted text => exact (hP.stays_note text).leaves ih done
    | said line =>
      have hleft := hP.say line _ ih
      rwa [show (Regression.say line).on _ = _ from done] at hleft
    | judged d v =>
      have hstays : (Skip.evaluate p.directoryContext d).Stays P := hP.evaluate fun _ => trivial
      have hleft := hstays _ ih
      rwa [show (Skip.evaluate p.directoryContext d).on _ = _ from done] at hleft
    | handed d => exact (hP.handles (fun _ _ => trivial) d mode).leaves ih done
  | asked _ d script ih => exact hP.capture trivial _ ih

/-- A machine on which no tool changes what files look like, every runner starts, the helper decides
as `fires` does about the conditions that it is asked about in a run, and the log takes every line. -/
structure Obliging (p : Phases) (fires : Path → Path → Bool) (m : Machine) : Prop where
  spare : ∀ command, m.tools.Spare m.directory command
  runners : ∀ command, command.program = (p.context.testUtil Walk.runnerName).text ∨
    (∃ d : Path, command.program = (d / Walk.runnerName).text) → m.tools.Start m.directory command
  shared : m.isExecutable (p.context.testUtil Walk.runnerName)
  conditions : ∀ m' d script, p.Reaches m m' → Skip.IsMarker d script →
    Skip.isAsked m.files m.directory p.directoryContext (some script) →
    ((Command.printed (m'.tools m'.commands (Skip.question p.directoryContext d script) m'.directory
      m'.files)).any fun output => (ConditionOutput.parse output).skip) = fires d script
  log : m.log.TakesAll m.files
  files : m.files.WellFormed
  /-- Timings left over from before can be taken away. -/
  timings : ∀ k ∈ p.plan.compiler, m.isDirectory k.tempDatDirectory →
    (m.files.removeDirectories m.directory k.tempDatDirectory).isOk

namespace Command

theorem start_cases (c : Command) (m : Machine) :
    (∃ ended, (c.start.on m).1 = .ok ended) ∨
      ∃ output, (c.start.on m).1 = .error (.command c.shown (-1) output) := by
  rw [start_on]
  cases m.tools m.commands c m.directory m.files with
  | ok ended => exact .inl ⟨ended, rfl⟩
  | error fault => exact .inr ⟨_, rfl⟩

/-- Where a command is followed, only that it cannot start is an error. -/
theorem outcome_follow_gives (hs : m.tools.Spare m.directory c) :
    (outcome c.follow).Gives (Abiding m) Machine.started fun r new =>
      new = [c] ∧ ∀ e, r = .error e → ∃ shown code output, e = .command shown code output := by
  intro m' hm'
  obtain ⟨habide, hadd⟩ := abiding_start hs hm'
  rw [Job.on_outcome, follow, Job.on_bind]
  rcases hrun : c.start.on m' with ⟨r, m₁⟩
  have hcases := start_cases c m'
  rw [hrun] at habide hadd hcases
  rcases hcases with ⟨ended, rfl⟩ | ⟨output, rfl⟩
  · have hlines : Job.Quiet (Abiding m) Machine.started
        (forIn (Text.rawLines ended.joined) PUnit.unit fun line _ =>
          note (Text.decodeLossy line) >>= fun _ => pure (.yield PUnit.unit)) :=
      Job.Gives.each_quiet fun line _ => note_abiding _
    obtain ⟨_, m₂, _, hnotes, habide', hadd', rfl⟩ := hlines m₁ habide
    refine ⟨.ok ended.status.code, m₂, [c], ?_, habide', ?_, rfl, ?_⟩
    · simp only [Job.on_bind_ok hnotes, Job.on_pure]
    · rw [hadd', hadd, List.append_nil]
    · rintro e he
      cases he
  · refine ⟨.error _, m₁, [c], rfl, habide, hadd, rfl, ?_⟩
    rintro e he
    cases he
    exact ⟨_, _, _, rfl⟩

end Command

theorem GraphTool.run_gives (hs : m.tools.Spare m.directory c) :
    (GraphTool.run c).Gives (Abiding m) Machine.started fun _ new => new = [c] := by
  refine Job.Gives.bind (Command.outcome_follow_gives hs) ?_
  rintro r _ ⟨rfl, herror⟩
  cases r with
  | ok code => exact Job.Gives.pure (List.append_nil _)
  | error e =>
    obtain ⟨shown, code, output, rfl⟩ := herror e rfl
    exact Job.Gives.pure (List.append_nil _)

namespace Obliging

theorem clean_gives (h : Obliging p fires m) (c : Context) (d : Path) (test : Option String) :
    (Runner.clean c d test).Gives (Abiding m) Machine.started fun _ new =>
      new = [Runner.cleanCommand c d test] := by
  have hrest : ∀ tell : Option String → Job Unit,
      (∀ output, (tell output).Gives (Abiding m) Machine.started fun _ new => new = []) →
      Job.Gives (Abiding m) Machine.started
        (do tell (← attempt (Runner.cleanCommand c d test).capture))
        fun _ new => new = [Runner.cleanCommand c d test] := by
    intro tell htell
    refine Job.Gives.bind (Command.capture_gives (h.spare _)).lift ?_
    rintro output _ rfl
    refine (htell output).mono ?_
    rintro _ _ rfl
    rfl
  unfold Runner.clean
  cases test with
  | none =>
    refine hrest _ fun output => ?_
    cases output <;> exact note_abiding _
  | some name =>
    refine Job.Gives.bind Job.Gives.get ?_
    rintro _ _ ⟨-, rfl⟩
    refine Job.Gives.after (note_abiding _) fun _ => hrest _ fun output => ?_
    cases output <;> exact note_abiding _

theorem launch_gives (h : Obliging p fires m) (c : Context) (d : Path) (test : Option String) :
    (Runner.launch c (p.runnerIn m.files m.directory d) d test).Gives (Abiding m)
      Machine.started fun _ new =>
        new = [Runner.command c (p.runnerIn m.files m.directory d) d test] := by
  unfold Runner.launch
  refine Job.Gives.bind Job.Gives.get ?_
  rintro m' _ ⟨-, rfl⟩
  refine Job.Gives.after (note_abiding _) fun _ => ?_
  have hruns : m.tools.Start m.directory
      (Runner.command c (p.runnerIn m.files m.directory d) d test) := by
    apply h.runners
    unfold Phases.runnerIn
    split
    · exact .inr ⟨d, rfl⟩
    · exact .inl rfl
  refine Job.Gives.bind (Command.follow_gives (h.spare _) hruns).outcome ?_
  rintro _ _ ⟨code, rfl, rfl⟩
  exact Job.Gives.pure (List.append_nil _)

theorem resolve_eq {m' : Machine} (hm' : Abiding m m') (vars : List (String × String)) (d : Path) :
    Runner.resolve m' (p.context.withVars vars) d = p.runnerIn m.files m.directory d := by
  simp only [Runner.resolve, Phases.runnerIn, hm'.shows.isExecutable]
  rfl

theorem runnerIn_isExecutable (h : Obliging p fires m) (d : Path) :
    m.files.isExecutable m.directory (p.runnerIn m.files m.directory d) = true := by
  unfold Phases.runnerIn
  split
  · assumption
  · exact h.shared

theorem invoke_gives (h : Obliging p fires m) (vars : List (String × String)) (progress : Bool)
    (d : Path) (file : Option Path) :
    (Runner.invoke (p.context.withVars vars) progress d file).Gives (Abiding m) Machine.started
      fun _ new => new =
        [Runner.command (p.context.withVars vars) (p.runnerIn m.files m.directory d) d
          (file.map Runner.nameOf)] := by
  unfold Runner.invoke
  refine Job.Gives.after (note_abiding _) fun _ => ?_
  cases file with
  | none =>
    refine Job.Gives.bind Job.Gives.get ?_
    rintro m₁ _ ⟨hm₁, rfl⟩
    refine Job.Gives.bind Job.Gives.get ?_
    rintro m₂ _ ⟨hm₂, rfl⟩
    simp only [resolve_eq hm₁, hm₂.shows.isExecutable, h.runnerIn_isExecutable,
      Bool.not_true, Bool.false_eq_true, ↓reduceIte, List.nil_append]
    exact h.launch_gives _ d none
  | some f =>
    refine Job.Gives.after (note_abiding _) fun _ => ?_
    refine Job.Gives.bind Job.Gives.get ?_
    rintro m₁ _ ⟨hm₁, rfl⟩
    refine Job.Gives.bind Job.Gives.get ?_
    rintro m₂ _ ⟨hm₂, rfl⟩
    simp only [resolve_eq hm₁, hm₂.shows.isExecutable, h.runnerIn_isExecutable,
      Bool.not_true, Bool.false_eq_true, ↓reduceIte, List.nil_append]
    have hlaunch := h.launch_gives (p.context.withVars vars) d (some (Runner.nameOf f))
    split
    · exact Job.Gives.after (complain_abiding _).lift fun _ => hlaunch
    · exact hlaunch

theorem generate_gives (h : Obliging p fires m) (g : PerfGraphs) (d : Path) (names : List String) :
    (g.generate d names).Gives (Abiding m) Machine.started fun _ new =>
      new = [g.command d names] := by
  unfold PerfGraphs.generate
  refine Job.Gives.after (note_abiding _) fun _ => ?_
  refine Job.Gives.bind (GraphTool.run_gives (h.spare (g.command d names))) ?_
  rintro succeeded _ rfl
  cases succeeded with
  | true =>
    refine (note_abiding _).mono ?_
    rintro _ _ rfl
    rfl
  | false =>
    refine (note_abiding _).mono ?_
    rintro _ _ rfl
    rfl

theorem forTest_gives (h : Obliging p fires m) (g : PerfGraphs) (test : Path) :
    (g.forTest test).Gives (Abiding m) Machine.started fun _ new =>
      new = g.testCommands m.files m.directory test := by
  unfold PerfGraphs.forTest
  refine Job.Gives.bind Job.Gives.get ?_
  rintro m' _ ⟨hm', rfl⟩
  rw [hm'.shows.isFile, PerfGraphs.testCommands]
  split
  · exact h.generate_gives g _ _
  · exact Job.Gives.pure rfl

theorem forDirectory_gives (h : Obliging p fires m) (g : PerfGraphs) (d : Path) :
    (g.forDirectory d).Gives (Abiding m) Machine.started fun _ new =>
      new = g.directoryCommands m.files m.directory d := by
  unfold PerfGraphs.forDirectory
  refine Job.Gives.bind Job.Gives.get ?_
  rintro m' _ ⟨hm', rfl⟩
  have hnames : PerfGraphs.filesIn m' d = PerfGraphs.graphNames m.files m.directory d := by
    have hlist := congrArg (Except.map (List.map (·.1))) (hm'.shows.list d)
    unfold PerfGraphs.filesIn PerfGraphs.graphNames
    cases hl : m'.list d <;> cases hl' : m.files.list m.directory d <;>
      simp_all [Except.map, Function.comp_def]
  rw [hnames, PerfGraphs.directoryCommands]
  cases hn : PerfGraphs.graphNames m.files m.directory d with
  | nil => exact Job.Gives.pure rfl
  | cons name names => exact h.generate_gives g d _

theorem handle_gives (h : Obliging p fires m) (hclean : p.settings.cleanOnly = false)
    (mode : RunMode) (d : Path) :
    (p.handle d mode).Gives (Abiding m) Machine.started fun _ new =>
      new = p.directoryCommands m.files m.directory mode d := by
  unfold Phases.handle Phases.directoryCommands
  split
  · cases p.graphs with
    | none => exact Job.Gives.pure rfl
    | some g =>
      refine (h.forDirectory_gives g d).mono fun _ _ hnew => ?_
      simpa using hnew
  · refine Job.Gives.bind (h.clean_gives _ d none) ?_
    rintro _ _ rfl
    simp only [hclean, Bool.not_false, ↓reduceIte]
    refine Job.Gives.bind (h.invoke_gives _ _ d none) ?_
    rintro code _ rfl
    split
    · refine (note_abiding _).mono ?_
      rintro _ _ rfl
      rfl
    · exact Job.Gives.pure rfl

theorem singleFile_gives (h : Obliging p fires m) (hclean : p.settings.cleanOnly = false)
    (file : Path) :
    (p.singleFile file).Gives (Abiding m) Machine.started fun _ new =>
      new = p.fileCommands m.files m.directory file := by
  unfold Phases.singleFile
  refine Job.Gives.after (note_abiding _) fun _ => ?_
  refine Job.Gives.after (note_abiding _) fun _ => ?_
  refine Job.Gives.bind (h.clean_gives _ _ _) ?_
  rintro _ _ rfl
  have hgraphs : (p.graphFile file).Gives (Abiding m) Machine.started fun _ new => new =
      if p.settings.genGraphs then
        p.graphs.toList.flatMap (·.testCommands m.files m.directory file)
      else [] := by
    unfold Phases.graphFile
    split
    · cases p.graphs with
      | none => exact Job.Gives.pure rfl
      | some g =>
        refine (h.forTest_gives g file).mono fun _ _ hnew => ?_
        simpa using hnew
    · exact Job.Gives.pure rfl
  simp only [hclean, Bool.not_false, ↓reduceIte, Phases.fileCommands, List.append_assoc]
  split
  · refine Job.Gives.bind (h.invoke_gives _ _ _ (some file)) ?_
    rintro code _ rfl
    refine Job.Gives.whether (note_abiding _) (Job.Gives.whether (complain_abiding _).lift ?_)
    refine hgraphs.mono ?_
    rintro _ _ rfl
    rfl
  · simp only [pure_bind]
    refine Job.Gives.whether (note_abiding _) (Job.Gives.whether (complain_abiding _).lift ?_)
    refine hgraphs.mono ?_
    rintro _ _ rfl
    rfl

theorem decides (h : Obliging p fires m) :
    Skip.Decides p.directoryContext m.files m.directory fires
      (fun m' => Abiding m m' ∧ p.Reaches m m') Machine.started
      fun d script => [Skip.question p.directoryContext d script] where
  shows _ hm' := hm'.1.shows
  answers d script hmarker hasked := by
    rintro m' ⟨hm', hreaches⟩
    obtain ⟨new, habide, hadd, hnew⟩ := Command.capture_gives (h.spare _) m' hm'
    refine ⟨new, ⟨habide, hreaches.asked d script⟩, hadd, ?_, hnew⟩
    rw [Command.attempt_capture_on]
    exact h.conditions m' d script hreaches hmarker hasked

theorem footing (h : Obliging p fires m) (hclean : p.settings.cleanOnly = false)
    {mode : RunMode} (hmode : mode ∈ p.settings.directoryPasses) :
    Footing p.directoryContext (p.terrain m.files m.directory fires mode) p.handle
      (fun m' => Abiding m m' ∧ p.Reaches m m') Machine.started
      (p.conditionCommands m.files m.directory fires)
      (p.directoryCommands m.files m.directory mode) where
  view _ hm' := hm'.1.shows
  note text := (note_abiding text).along fun _ _ _ hm' hdone =>
    hm'.deed hmode (show Deed.Done _ mode _ (.noted text) _ _ from hdone)
  say line := (say_abiding line).along fun _ hm' =>
    hm'.deed hmode (show Deed.Done _ mode _ (.said line) _ _ from rfl)
  evaluate _ := Skip.evaluate_gives h.decides
  handle d := (h.handle_gives hclean mode d).along fun _ _ _ hm' hdone =>
    hm'.deed hmode (show Deed.Done _ mode _ (.handed d) _ _ from hdone)

theorem files_gives (h : Obliging p fires m) (hclean : p.settings.cleanOnly = false)
    (files : List Path) :
    Job.Gives (fun m' => Abiding m m' ∧ p.Reaches m m') Machine.started
      (forIn files PUnit.unit fun file _ => p.singleFile file >>= fun _ => pure (.yield PUnit.unit))
      fun _ new => new = files.flatMap (p.fileCommands m.files m.directory) :=
  Job.Gives.each fun file _ =>
    (h.singleFile_gives hclean file).along fun _ _ _ hm' hdone => hm'.file hdone

theorem directory_gives (h : Obliging p fires m) (hclean : p.settings.cleanOnly = false)
    (root : Path) :
    (p.directory root).Gives (fun m' => Abiding m m' ∧ p.Reaches m m') Machine.started
      fun _ new =>
        new = p.settings.directoryPasses.flatMap (p.passCommands m.files m.directory fires root) := by
  refine Job.Gives.bind
    (Job.Gives.each fun mode hmode => (h.footing hclean hmode).walk h.files root) ?_
  rintro _ _ rfl
  exact Job.Gives.pure (List.append_nil _)

theorem roots_gives (h : Obliging p fires m) (hclean : p.settings.cleanOnly = false)
    (roots : List Path) :
    Job.Gives (fun m' => Abiding m m' ∧ p.Reaches m m') Machine.started
      (forIn roots PUnit.unit fun root _ => p.directory root >>= fun _ => pure (.yield PUnit.unit))
      fun _ new => new = roots.flatMap fun root =>
        p.settings.directoryPasses.flatMap (p.passCommands m.files m.directory fires root) :=
  Job.Gives.each fun root _ => h.directory_gives hclean root

theorem report_gives (h : Obliging p fires m) (k : CompilerPerf) :
    (k.report p.context p.tool p.layout.testDirectory).Gives (Abiding m) Machine.started
      fun _ new => new = [k.combineCommand p.context (m.uptime - k.started),
        k.graphCommand p.tool p.layout.testDirectory] := by
  unfold CompilerPerf.report
  refine Job.Gives.bind Job.Gives.get ?_
  intro m' _ hm'
  obtain ⟨habide, rfl⟩ := hm'
  rw [habide.uptime]
  refine Job.Gives.after (note_abiding _) fun _ => ?_
  have hgraph : Job.Gives (Abiding m) Machine.started
      (do
        let list := p.layout.testDirectory / "COMPGRAPHFILES"
        note "[Creating compiler performance graphs now]"
        let result := if ← GraphTool.run (k.graphCommand p.tool p.layout.testDirectory)
          then "Success" else "Error"
        note ("[" ++ result ++ " generating compiler performance graphs from " ++ list.text ++
          " in " ++ k.htmlDirectory.text ++ "]"))
      fun _ new => new = [k.graphCommand p.tool p.layout.testDirectory] := by
    refine Job.Gives.after (note_abiding _) fun _ => ?_
    refine Job.Gives.bind (GraphTool.run_gives (h.spare _)) ?_
    intro succeeded _ hnew
    subst hnew
    exact (note_abiding _).mono fun _ _ hnew => by simp [hnew]
  refine Job.Gives.bind (Command.capture_gives (h.spare _)).lift ?_
  rintro output _ rfl
  cases output with
  | none =>
    refine Job.Gives.after (note_abiding _) fun _ => ?_
    exact hgraph.mono fun _ _ hnew => by simp [hnew]
  | some output =>
    refine Job.Gives.after (note_abiding _) fun _ => ?_
    refine Job.Gives.after (note_abiding _) fun _ => ?_
    exact hgraph.mono fun _ _ hnew => by simp [hnew]

/-- Afterwards the timings are gone, so that the files may look different. -/
theorem finish_gives (h : Obliging p fires m) (k : CompilerPerf) (hk : k ∈ p.plan.compiler)
    {m' : Machine} (hm' : Abiding m m') :
    ∃ m'', (k.finish p.context p.tool p.layout.testDirectory).on m' = (.ok (), m'') ∧
      m''.tools = m.tools ∧ m''.directory = m.directory ∧ m''.log.TakesAll m''.files ∧
      m''.started = m'.started ++ [k.combineCommand p.context (m.uptime - k.started),
        k.graphCommand p.tool p.layout.testDirectory] := by
  obtain ⟨_, m₁, _, hrun, hm₁, hadd, rfl⟩ := h.report_gives k m' hm'
  unfold CompilerPerf.finish
  rw [Job.on_bind_ok hrun, Job.on_bind_ok (Job.on_get m₁), hm₁.shows.isDirectory]
  split
  · next hd =>
    have hok := h.timings k hk hd
    rw [← FileTree.removeDirectories_isOk hm₁.files, ← hm₁.directory] at hok
    simp only [removeDirectories, edit, editOr_on]
    cases hr : m₁.files.removeDirectories m₁.directory k.tempDatDirectory with
    | error f =>
      rw [hr] at hok
      cases hok
    | ok files =>
      obtain ⟨l, n, -, rfl⟩ := FileTree.removeDirectories_ok hr
      exact ⟨_, rfl, hm₁.tools, hm₁.directory, hm₁.log.prune l, hadd⟩
  · exact ⟨m₁, rfl, hm₁.tools, hm₁.directory, hm₁.log, hadd⟩

end Obliging

theorem PerfGraphs.fromList_gives (hs : ∀ command, m.tools.Spare m.directory command)
    (g : PerfGraphs) (d : Path) (label : String) :
    (g.fromList d label).Gives (Abiding m) Machine.started fun _ new =>
      new = [g.listCommand d label] := by
  unfold PerfGraphs.fromList
  refine Job.Gives.after (note_abiding _) fun _ => ?_
  refine Job.Gives.bind (GraphTool.run_gives (hs (g.listCommand d label))) ?_
  intro succeeded _ hnew
  subst hnew
  refine (note_abiding _).mono fun _ _ hnew => ?_
  rw [hnew]
  rfl

/-- The last step needs no more of the files than that the log takes every line. -/
theorem Phases.list_started (p : Phases) (hs : ∀ command, m.tools.Spare m.directory command)
    (hlog : m.log.TakesAll m.files) :
    ∃ m', Job.on (if p.settings.genGraphs then
        match p.graphs with
        | some g => g.fromList p.layout.testDirectory p.settings.perfLabel
        | _ => pure ()
      else pure ()) m = (.ok (), m') ∧ m'.started = m.started ++ p.listCommands := by
  unfold Phases.listCommands
  split
  · cases p.graphs with
    | none => exact ⟨m, rfl, (List.append_nil _).symm⟩
    | some g =>
      obtain ⟨_, m', _, hrun, -, hadd, rfl⟩ :=
        g.fromList_gives hs p.layout.testDirectory p.settings.perfLabel m (Abiding.refl hlog)
      exact ⟨m', hrun, hadd⟩
  · exact ⟨m, rfl, (List.append_nil _).symm⟩

theorem Obliging.conclude_started (h : Obliging p fires m) {m' : Machine} (hm' : Abiding m m') :
    ∃ m'', p.conclude.on m' = (.ok (), m'') ∧
      m''.started = m'.started ++ p.compilerCommands m.uptime ++ p.listCommands := by
  unfold Phases.conclude Phases.compilerCommands
  cases hk : p.plan.compiler with
  | none =>
    have hs : ∀ command, m'.tools.Spare m'.directory command := by
      rw [hm'.tools, hm'.directory]
      exact h.spare
    obtain ⟨m'', hrun, hadd⟩ := p.list_started hs hm'.log
    exact ⟨m'', hrun, by simpa using hadd⟩
  | some k =>
    obtain ⟨m₁, hrun, htools, hdirectory, hlog, hadd⟩ := h.finish_gives k hk hm'
    have hs : ∀ command, m₁.tools.Spare m₁.directory command := by
      rw [htools, hdirectory]
      exact h.spare
    obtain ⟨m'', hrun', hadd'⟩ := p.list_started hs hlog
    refine ⟨m'', (Job.on_bind_ok hrun _).trans hrun', ?_⟩
    rw [hadd', hadd]
    rfl

/-- A run starts what is planned, whatever the runners, the cleaner and the graph helper print and
however they end. -/
theorem Phases.run_started (h : Obliging p fires m) (hclean : p.settings.cleanOnly = false)
    (files roots : List Path) :
    ∃ m', (p.run files roots).on m = (.ok (), m') ∧
      m'.started =
        m.started ++ p.planned m.files m.directory fires files roots m.uptime := by
  obtain ⟨_, m₁, _, hrun₁, hm₁, hadd₁, rfl⟩ :=
    h.files_gives hclean files m ⟨Abiding.refl h.log, .start⟩
  obtain ⟨_, m₂, _, hrun₂, ⟨hm₂, -⟩, hadd₂, rfl⟩ := h.roots_gives hclean roots m₁ hm₁
  obtain ⟨m₃, hrun₃, hadd₃⟩ := h.conclude_started hm₂
  refine ⟨m₃, ?_, ?_⟩
  · rw [Phases.run_eq, Job.on_bind_ok hrun₁, Job.on_bind_ok hrun₂, hrun₃]
  · rw [hadd₃, hadd₂, hadd₁]
    simp only [Phases.planned, List.append_assoc]

/-- Two runs over one tree whose tools differ only in what they print and how they end, and whose
helpers decide alike about conditions, start the same commands, those that are planned. Only the time
that the timings are told may differ. -/
theorem Phases.runs_alike {m₁ m₂ : Machine} (h₁ : Obliging p fires m₁) (h₂ : Obliging p fires m₂)
    (htree : m₂.files = m₁.files) (hplace : m₂.directory = m₁.directory)
    (hclean : p.settings.cleanOnly = false) (files roots : List Path) :
    ∃ m₁' m₂', (p.run files roots).on m₁ = (.ok (), m₁') ∧
      (p.run files roots).on m₂ = (.ok (), m₂') ∧
      m₁'.started =
        m₁.started ++ p.planned m₁.files m₁.directory fires files roots m₁.uptime ∧
      m₂'.started =
        m₂.started ++ p.planned m₁.files m₁.directory fires files roots m₂.uptime := by
  obtain ⟨m₁', hrun₁, hadd₁⟩ := Phases.run_started h₁ hclean files roots
  obtain ⟨m₂', hrun₂, hadd₂⟩ := Phases.run_started h₂ hclean files roots
  rw [htree, hplace] at hadd₂
  exact ⟨m₁', m₂', hrun₁, hrun₂, hadd₁, hadd₂⟩

namespace Bench

/-- A test beside the shared tools. -/
def files : FileTree :=
  { entries :=
      [([], .directory .newDirectory), (["t"], .directory .newDirectory),
        (["a.chpl", "t"], .file 0 .newFile []), (["u"], .directory .newDirectory),
        (["test", "u"], .directory .newDirectory),
        (["sub_test", "test", "u"], .file 1 .newDirectory [])]
    serial := 2 }

/-- Tools that all print one text and end with one code. -/
def machine (text : String) (code : Nat) : Machine :=
  { files, clock := ⟨2024, 5, 1, 12, 0, 0, 0⟩, process := 1, scratchRoot := ⟨"/tmp"⟩
    tools := fun _ _ _ files =>
      .ok { written := [(.output, Text.encode text)], status := .exited code, files } }

def phases : Phases :=
  { settings := {}
    layout :=
      { home := ⟨"/"⟩, utilDirectory := ⟨"/u"⟩, testDirectory := ⟨"/t"⟩, logsDirectory := ⟨"/t"⟩
        specTests := false }
    context :=
      { environment := .empty, utilDirectory := ⟨"/u"⟩, tmpDirectory := ⟨"/tmp"⟩
        invocationDirectory := ⟨"/"⟩ }
    plan := {} }

/-- Two directories that are tested unless the helper says otherwise. -/
def marked : FileTree :=
  { entries := files.entries ++
      [(["t.skipif"], .file 2 .newFile []), (["v"], .directory .newDirectory),
        (["b.chpl", "v"], .file 3 .newFile []), (["v.skipif"], .file 4 .newFile []),
        (["testEnv", "test", "u"], .file 5 .newDirectory [])]
    serial := 6 }

/-- The second one is not to be tested. -/
def bars (d _script : Path) : Bool := d = ⟨"/v"⟩

/-- Tools that all print one text and end with one code, but for the helper. -/
def asking (text : String) (code : Nat) : Machine :=
  { machine text code with
    files := marked
    tools := fun _ c _ files =>
      if c.program = "/u/test/testEnv" then
        .ok { written := [(.output, Text.encode (if c.directory = some ⟨"/v"⟩ then "1" else "0"))]
              status := .exited 0, files }
      else .ok { written := [(.output, Text.encode text)], status := .exited code, files } }

theorem asking_answers (text : String) (code : Nat) (history : List Command) (cwd : Location)
    (files : FileTree) (d script : Path) :
    ((Command.printed ((asking text code).tools history
      (Skip.question phases.directoryContext d script) cwd files)).any
        fun output => (ConditionOutput.parse output).skip) = bars d script := by
  have hhelper : (Skip.helper phases.directoryContext).text = "/u/test/testEnv" := by decide +kernel
  have hanswer : ∀ b : Bool, (ConditionOutput.parse (Text.decodeLossy (Ended.on
      { written := [(.output, Text.encode (if b then "1" else "0"))], status := .exited 0
        files := {} } .output))).skip = b := by decide +kernel
  have hasked : ∀ d : Path, (if some d = some (⟨"/v"⟩ : Path) then "1" else "0") =
      if bars d script then "1" else "0" := by simp [bars]
  simp only [asking, Skip.question, hhelper, ↓reduceIte, hasked, Command.printed, Option.any_some]
  exact hanswer _

theorem wellFormed : marked.WellFormed := ⟨by decide, by decide⟩

theorem shared : marked.isExecutable [] (phases.context.testUtil Walk.runnerName) = true := by
  decide +kernel

theorem obliging (text : String) (code : Nat) : Obliging phases bars (asking text code) where
  spare command history files ended hrun := by
    simp only [asking] at hrun
    split at hrun <;> cases hrun <;> rfl
  runners command _ history files := by
    simp only [asking]
    split <;> exact ⟨_, rfl⟩
  shared := shared
  conditions m' d script hreaches _ _ := by
    rw [hreaches.lasts (Lasting.tools ⟨"/tmp"⟩ (asking text code).tools) rfl]
    exact asking_answers text code m'.commands m'.directory m'.files d script
  log := trivial
  files := wellFormed
  timings _ hk := by cases hk

/-- The tests of the first directory are run, those of the second one are not. -/
theorem runs_alike_bench : ∃ m₁' m₂',
    (phases.run [⟨"/t/a.chpl"⟩] [⟨"/t"⟩, ⟨"/v"⟩]).on (asking "" 0) = (.ok (), m₁') ∧
      (phases.run [⟨"/t/a.chpl"⟩] [⟨"/t"⟩, ⟨"/v"⟩]).on (asking "broken" 3) = (.ok (), m₂') ∧
      m₁'.started = m₂'.started ∧
      (m₁'.started.map fun c => (c.tool, c.directory)) =
        [("sub_clean", some ⟨"/t"⟩), ("sub_test", some ⟨"/t"⟩), ("testEnv", some ⟨"/t"⟩),
          ("sub_clean", some ⟨"/t"⟩), ("sub_test", some ⟨"/t"⟩), ("testEnv", some ⟨"/v"⟩)] := by
  obtain ⟨m₁', m₂', hrun₁, hrun₂, hadd₁, hadd₂⟩ :=
    Phases.runs_alike (obliging "" 0) (obliging "broken" 3) rfl rfl rfl [⟨"/t/a.chpl"⟩]
      [⟨"/t"⟩, ⟨"/v"⟩]
  have htools : (((phases.run [⟨"/t/a.chpl"⟩] [⟨"/t"⟩, ⟨"/v"⟩]).on (asking "" 0)).2.started.map
      fun c => (c.tool, c.directory)) =
        [("sub_clean", some ⟨"/t"⟩), ("sub_test", some ⟨"/t"⟩), ("testEnv", some ⟨"/t"⟩),
          ("sub_clean", some ⟨"/t"⟩), ("sub_test", some ⟨"/t"⟩), ("testEnv", some ⟨"/v"⟩)] := by
    decide +kernel
  rw [hrun₁] at htools
  exact ⟨m₁', m₂', hrun₁, hrun₂, hadd₁.trans hadd₂.symm, htools⟩

end Bench

end Regression
