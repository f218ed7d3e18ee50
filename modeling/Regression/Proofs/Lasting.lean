import Regression.Proofs.Allowance
import Regression.Proofs.Keeps
import Regression.Proofs.Notes
import Regression.Proofs.Sound

namespace Regression

/-- The directory in which the compiler's timings are gathered. -/
def timings (tmp : Path) : Path := tmp / "tempCompPerfDatFiles"

/-- What is graphed of a single file. -/
def Phases.graphFile (p : Phases) (file : Path) : Job Unit := do
  if p.settings.genGraphs then
    if let some g := p.graphs then
      g.forTest file

/-- What is done once all files and directories have been worked on. -/
def Phases.conclude (p : Phases) : Job Unit := do
  if let some compiler := p.plan.compiler then
    compiler.finish p.context p.tool p.layout.testDirectory
  if p.settings.genGraphs then
    if let some g := p.graphs then
      g.fromList p.layout.testDirectory p.settings.perfLabel

theorem Phases.run_eq (p : Phases) (files roots : List Path) : p.run files roots = (do
    for file in files do
      p.singleFile file
    for root in roots do
      p.directory root
    p.conclude) := rfl

/-- What a step of the tests makes of the files: it makes directories, writes or removes a file, or
clears away the timings below the runners' directory. -/
inductive Machine.Edits (tmp : Path) (m : Machine) : FileTree → Prop where
  | directories {files : FileTree} (p : Path)
    (h : m.files.makeDirectories m.directory p = .ok files) : Edits tmp m files
  | text {files : FileTree} (p : Path) (bytes : Text.Bytes)
    (h : m.files.writeFile m.directory p bytes = .ok files) : Edits tmp m files
  | removal {files : FileTree} (p : Path)
    (h : m.files.removeFile m.directory p = .ok files) : Edits tmp m files
  | clearing {files : FileTree}
    (h : m.files.removeDirectories m.directory (timings tmp) = .ok files) : Edits tmp m files

/-- What no tool that is asked for as `A` allows takes away from a machine, whatever is shown of it. -/
structure Starting (A : Command → Prop) (P : Machine → Prop) : Prop where
  console : ∀ m text, P m → P { m with console := text }
  diagnostics : ∀ m text, P m → P { m with diagnostics := text }
  start : ∀ m (c : Command), A c → P m → P (c.start.on m).2

/-- What no step of the tests takes away from a machine. -/
structure Lasting (tmp : Path) (A : Command → Prop) (P : Machine → Prop) : Prop
    extends Starting A P where
  note : ∀ m text, P m → P ((note text).on m).2
  edit : ∀ m files, m.Edits tmp files → P m →
    P { m with files, changes := { tool := none, before := m.files, after := files } :: m.changes }

theorem Machine.Edits.sound {tmp : Path} {m : Machine} {files : FileTree} (h : m.Edits tmp files)
    (hm : m.files.Sound) : files.Sound := by
  cases h with
  | directories p h => exact hm.makeDirectories h
  | text p bytes h => exact hm.writeFile h
  | removal p h => exact hm.removeFile h
  | clearing h => exact hm.removeDirectories h

namespace Starting

variable {A : Command → Prop} {P : Machine → Prop} {c : Command}

theorem say (h : Starting A P) (line : String) : (Regression.say line).Stays P :=
  fun m hm => h.console m _ hm

theorem complain (h : Starting A P) (line : String) : (Regression.complain line).Stays P :=
  fun m hm => h.diagnostics m _ hm

theorem stays_start (h : Starting A P) (hc : A c) : c.start.Stays P :=
  fun m hm => ⟨h.start m c hc hm, fun _ _ => trivial⟩

theorem captureWith (h : Starting A P) (hc : A c) (showDiagnostics : Bool) :
    (c.captureWith showDiagnostics).Stays P := by
  unfold Command.captureWith
  refine (h.stays_start hc).after fun ended => ?_
  have hend : Job.Stays P
      (if ended.status = .exited 0 then pure (Text.decodeLossy (ended.on .output))
      else throw (.command c.shown ended.status.code (Text.decodeLossy (ended.on .output)))) := by
    split
    · exact Job.Keeps.given _
    · exact Job.Keeps.throw _ _
  exact Job.Keeps.whether (Job.Keeps.modify fun m hm => h.diagnostics m _ hm) hend

theorem capture (h : Starting A P) (hc : A c) : (attempt c.capture).Stays P :=
  Effect.Stays.attempt (h.captureWith hc true)

theorem captureQuiet (h : Starting A P) (hc : A c) : (attempt c.captureQuiet).Stays P :=
  Effect.Stays.attempt (h.captureWith hc false)

section Markers

variable {c : Context}

theorem checkCondition (h : Starting A P) {directory script : Path}
    (hc : A (Skip.question c directory script)) :
    (Skip.checkCondition c directory script).Stays P := by
  unfold Skip.checkCondition
  refine Job.Keeps.get.after fun m => ?_
  split
  · exact Job.Keeps.throw _ _
  · exact (h.captureWith hc true).after fun _ => Job.Keeps.given _

theorem condition (h : Starting A P) {directory : Path}
    (hc : ∀ script, A (Skip.question c directory script)) (marker : Option Path) (warning : String)
    (v : Verdict) : (Skip.condition c directory marker warning v).Stays P := by
  unfold Skip.condition
  split
  · exact Effect.Stays.pure _
  · refine Effect.Stays.get.bind fun m => ?_
    split
    · exact Effect.Stays.pure _
    · refine (Effect.Stays.attempt (h.checkCondition (hc _))).bind fun output => ?_
      split <;> exact Effect.Stays.pure _

theorem evaluate (h : Starting A P) {directory : Path}
    (hc : ∀ script, A (Skip.question c directory script)) :
    (Skip.evaluate c directory).Stays P := by
  unfold Skip.evaluate
  refine Effect.Stays.get.bind fun m => ?_
  split
  · exact Effect.Stays.pure _
  · refine (h.condition hc _ _ _).bind fun found => ?_
    obtain ⟨fired, v⟩ := found
    simp only
    split
    · exact Effect.Stays.pure _
    · refine (h.condition hc _ _ _).bind fun found' => ?_
      obtain ⟨fired', v'⟩ := found'
      simp only
      split
      · exact Effect.Stays.pure _
      · refine Effect.Stays.get.bind fun m' => ?_
        split <;> exact Effect.Stays.pure _

end Markers

end Starting

namespace Lasting

variable {tmp : Path} {A : Command → Prop} {P Q : Machine → Prop}

theorem and (h : Lasting tmp A P) (h' : Lasting tmp A Q) : Lasting tmp A fun m => P m ∧ Q m :=
  ⟨⟨fun m text hm => ⟨h.console m text hm.1, h'.console m text hm.2⟩,
      fun m text hm => ⟨h.diagnostics m text hm.1, h'.diagnostics m text hm.2⟩,
      fun m c hc hm => ⟨h.start m c hc hm.1, h'.start m c hc hm.2⟩⟩,
    fun m text hm => ⟨h.note m text hm.1, h'.note m text hm.2⟩,
    fun m files hedit hm => ⟨h.edit m files hedit hm.1, h'.edit m files hedit hm.2⟩⟩

theorem stays_note (h : Lasting tmp A P) (text : String) : (Regression.note text).Stays P :=
  fun m hm => ⟨h.note m text hm, fun _ _ => trivial⟩

theorem stays_edit (h : Lasting tmp A P) {change : FileTree → Location → Except Fault FileTree}
    (hc : ∀ m files, change m.files m.directory = .ok files → Machine.Edits tmp m files) :
    (Regression.edit change).Stays P := by
  intro m hm
  refine ⟨?_, fun _ _ => trivial⟩
  unfold Regression.edit
  rw [editOr_on]
  cases hfiles : change m.files m.directory with
  | error fault => exact hm
  | ok files => exact h.edit m files (hc m files hfiles) hm

theorem makeDirectories (h : Lasting tmp A P) (p : Path) :
    (Regression.makeDirectories p).Stays P :=
  h.stays_edit fun _ _ hok => .directories p hok

theorem writeText (h : Lasting tmp A P) (p : Path) (text : String) :
    (Regression.writeText p text).Stays P :=
  h.stays_edit fun _ _ hok => .text p _ hok

theorem removeFile (h : Lasting tmp A P) (p : Path) : (Regression.removeFile p).Stays P :=
  h.stays_edit fun _ _ hok => .removal p hok

theorem clear (h : Lasting tmp A P) : (Regression.removeDirectories (timings tmp)).Stays P :=
  h.stays_edit fun _ _ hok => .clearing hok

section Commands

theorem follow (h : Lasting tmp A P) {c : Command} (hc : A c) : c.follow.Stays P := by
  unfold Command.follow
  refine (h.stays_start hc).after fun ended => ?_
  refine Job.Keeps.after (Job.Keeps.each fun line _ => h.stays_note _) fun _ => ?_
  exact Job.Keeps.given _

end Commands

section Walking

variable {c : Context}

/-- The conditions of markers may be asked about, unless markers count for nothing. -/
def Asks (A : Command → Prop) (c : Context) (o : WalkOptions) : Prop :=
  o.cleanOnly = false → ∀ directory script, A (Skip.question c directory script)

/-- What a handler does at a directory is a step like others. -/
def Handles (P : Machine → Prop) (handle : Handler) : Prop :=
  ∀ directory mode, (handle directory mode).Stays P

variable {o : WalkOptions} {mode : RunMode} {handle : Handler}

theorem reject (h : Lasting tmp A P) (directory : Path) :
    Threaded.Stays P (fun _ => True) (Walk.reject directory) := by
  unfold Walk.reject
  exact (Threaded.Keeps.lift (h.stays_note _)).after fun _ => Threaded.Keeps.modify fun _ _ => trivial

theorem obey (h : Lasting tmp A P) (hh : Handles P handle) (directory : Path) (v : Verdict) :
    Threaded.Stays P (fun _ => True) (Walk.obey o mode handle directory v) := by
  unfold Walk.obey
  refine (Threaded.Keeps.each fun line _ =>
    Threaded.Keeps.lift (Job.Keeps.lift (h.say line))).after fun _ => ?_
  refine (Threaded.Keeps.each fun line _ => Threaded.Keeps.lift (h.stays_note line)).after
    fun _ => ?_
  have hend : ∀ (f : WalkReport → WalkReport) (b : Bool),
      Threaded.Stays P (fun _ => True) (do Walk.count f; pure b) := fun f b =>
    (Threaded.Keeps.modify fun _ _ => trivial).after fun _ => Threaded.Keeps.given _
  split
  · exact Threaded.Keeps.whether (Threaded.Keeps.lift (h.stays_note _)) (hend _ false)
  · exact Threaded.Keeps.whether (Threaded.Keeps.lift (h.stays_note _)) (hend _ true)
  · refine (Threaded.Keeps.lift Job.Keeps.get).after fun m => ?_
    split
    · exact (Threaded.Keeps.lift (hh directory mode)).after fun _ => hend _ true
    · exact (Threaded.Keeps.lift (h.stays_note _)).after fun _ => hend _ true

theorem workOn (h : Lasting tmp A P) (hc : Asks A c o) (hh : Handles P handle) (directory : Path) :
    Threaded.Stays P (fun _ => True) (Walk.workOn c o mode handle directory) := by
  unfold Walk.workOn
  refine (Threaded.Keeps.lift (h.stays_note _)).after fun _ => ?_
  refine (Threaded.Keeps.lift (h.stays_note _)).after fun _ => ?_
  refine Threaded.Keeps.after (Threaded.Keeps.modify fun _ _ => trivial) fun _ => ?_
  split
  · have hv : Threaded.Stays P (fun _ => True) (pure {} : Walking Verdict) :=
      Threaded.Keeps.given _
    exact hv.after fun v => h.obey hh directory v
  · next hmarkers =>
    have hask := hc (Bool.eq_false_iff.mpr hmarkers) directory
    exact (Threaded.Keeps.lift (Job.Keeps.lift (h.toStarting.evaluate hask))).after fun v =>
      h.obey hh directory v

theorem visit (h : Lasting tmp A P) (hc : Asks A c o) (hh : Handles P handle) (levels : Nat)
    (directory : Path) : Threaded.Stays P (fun _ => True) (Walk.visit c o mode handle levels directory) := by
  induction levels generalizing directory with
  | zero => exact h.reject directory
  | succ levels ih =>
    rw [Walk.visit]
    refine (Threaded.Keeps.lift Job.Keeps.get).after fun m => ?_
    split
    · exact h.reject directory
    · split
      · refine (h.workOn hc hh directory).after fun deeper => ?_
        split
        · exact (Threaded.Keeps.each fun child _ => ih child).after fun _ =>
            Threaded.Keeps.given _
        · exact Threaded.Keeps.given _
      · exact Threaded.Keeps.given _

theorem begin (h : Lasting tmp A P) (hc : Asks A c o) (hh : Handles P handle) (root : Path) :
    Threaded.Stays P (fun _ => True) (Walk.begin c o mode handle root) := by
  unfold Walk.begin
  refine (Threaded.Keeps.lift Job.Keeps.get).after fun m => ?_
  split
  · exact h.reject root
  · exact h.visit hc hh _ root
  · split
    · exact h.reject root
    · split
      · split
        · exact (Threaded.Keeps.each fun child _ => h.visit hc hh _ child).after fun _ =>
            Threaded.Keeps.given _
        · exact h.reject root
      · exact Threaded.Keeps.given _
  · exact Threaded.Keeps.given _

theorem walk (h : Lasting tmp A P) (hc : Asks A c o) (hh : Handles P handle) (root : Path) :
    (Regression.walk c o mode handle root).Stays P := by
  unfold Regression.walk
  refine (h.stays_note _).after fun _ => ?_
  exact (h.begin hc hh root {} trivial).after fun _ => Job.Keeps.given _

end Walking

section Running

/-- A tool whose end is looked at, whichever it is. -/
theorem outcome_follow (h : Lasting tmp A P) {c : Command} (hc : A c) :
    (outcome c.follow).Stays P :=
  (h.follow hc).outcome.stays

theorem graphTool (h : Lasting tmp A P) {c : Command} (hc : A c) : (GraphTool.run c).Stays P := by
  unfold GraphTool.run
  refine (h.outcome_follow hc).after fun result => ?_
  split
  · exact Job.Keeps.given _
  · exact Job.Keeps.given _
  · exact Job.Keeps.throw _ _

/-- The graph generator may be asked for. -/
def Graphs (A : Command → Prop) (t : GraphTool) : Prop :=
  ∀ arguments trailing directory, A (t.command arguments trailing directory)

variable {g : PerfGraphs}

theorem generate (h : Lasting tmp A P) (hg : Graphs A g.tool) (directory : Path)
    (names : List String) : (g.generate directory names).Stays P := by
  unfold PerfGraphs.generate
  refine (h.stays_note _).after fun _ => ?_
  refine (h.graphTool (hg _ _ _)).after fun ok => ?_
  split <;> exact h.stays_note _

theorem forDirectory (h : Lasting tmp A P) (hg : Graphs A g.tool) (directory : Path) :
    (g.forDirectory directory).Stays P := by
  unfold PerfGraphs.forDirectory
  refine Job.Keeps.get.after fun m => ?_
  simp only
  split
  · exact h.generate hg directory _
  · exact Job.Keeps.given _

theorem forTest (h : Lasting tmp A P) (hg : Graphs A g.tool) (test : Path) :
    (g.forTest test).Stays P := by
  unfold PerfGraphs.forTest
  refine Job.Keeps.get.after fun m => ?_
  split
  · exact h.generate hg _ _
  · exact Job.Keeps.given _

theorem fromList (h : Lasting tmp A P) (hg : Graphs A g.tool) (testDirectory : Path)
    (perfLabel : String) : (g.fromList testDirectory perfLabel).Stays P := by
  unfold PerfGraphs.fromList
  refine (h.stays_note _).after fun _ => ?_
  exact (h.graphTool (hg _ _ _)).after fun _ => h.stays_note _

theorem clean (h : Lasting tmp A P) {c : Context} {directory : Path} {test : Option String}
    (hc : A (Runner.cleanCommand c directory test)) :
    (Runner.clean c directory test).Stays P := by
  unfold Runner.clean
  have hend : ∀ tell : Option String → Job Unit, (∀ output, (tell output).Stays P) →
      Job.Stays P (do tell (← attempt (Runner.cleanCommand c directory test).capture)) :=
    fun tell htell => (Job.Keeps.lift (h.capture hc)).after htell
  split
  · refine Job.Keeps.get.after fun m => ?_
    refine (h.stays_note _).after fun _ => hend _ fun output => ?_
    cases output <;> exact h.stays_note _
  · refine hend _ fun output => ?_
    cases output <;> exact h.stays_note _

theorem launch (h : Lasting tmp A P) {c : Context} {runner directory : Path} {test : Option String}
    (hc : A (Runner.command c runner directory test)) : (Runner.launch c runner directory test).Stays P := by
  unfold Runner.launch
  refine Job.Keeps.get.after fun m => ?_
  refine (h.stays_note _).after fun _ => ?_
  refine (h.outcome_follow hc).after fun result => ?_
  split
  · exact Job.Keeps.given _
  · exact Job.Keeps.throw _ _
  · exact Job.Keeps.throw _ _

theorem invoke (h : Lasting tmp A P) {c : Context} {directory : Path} {file : Option Path}
    (hc : ∀ m, A (Runner.command c (Runner.resolve m c directory) directory
      (file.map Runner.nameOf)))
    (progress : Bool) : (Runner.invoke c progress directory file).Stays P := by
  unfold Runner.invoke
  have hlaunch := fun m => h.launch (hc m)
  refine (h.stays_note _).after fun _ => ?_
  cases file with
  | none =>
    refine Job.Keeps.get.after fun m => ?_
    refine Job.Keeps.get.after fun m' => ?_
    exact Job.Keeps.whether (Job.Keeps.throw _ fun _ => True) (hlaunch _)
  | some f =>
    refine (h.stays_note _).after fun _ => ?_
    refine Job.Keeps.get.after fun m => ?_
    refine Job.Keeps.get.after fun m' => ?_
    exact Job.Keeps.whether (Job.Keeps.throw _ fun _ => True)
      (Job.Keeps.whether (Job.Keeps.lift (h.complain _)) (hlaunch _))

theorem startTimings (h : Lasting tmp A P) (datDirectory : Path) (testName : String) :
    (CompilerPerf.start tmp datDirectory testName).Keeps P fun k =>
      k.tempDatDirectory = timings tmp := by
  unfold CompilerPerf.start
  refine Job.Keeps.get.after fun m => ?_
  have hend : Job.Keeps P (do
      return ({ datDirectory, htmlDirectory := datDirectory / "html", testName
                tempDatDirectory := timings tmp, started := (← get).uptime } : CompilerPerf))
      fun k => k.tempDatDirectory = timings tmp :=
    Job.Keeps.get.after fun m => Job.Keeps.pure rfl
  exact Job.Keeps.whether h.clear hend

theorem finishTimings (h : Lasting tmp A P) {k : CompilerPerf}
    (hk : k.tempDatDirectory = timings tmp) {c : Context}
    (hc : ∀ seconds, A (k.combineCommand c seconds)) {tool : GraphTool} (hg : Graphs A tool)
    (testDirectory : Path) :
    (k.finish c tool testDirectory).Stays P := by
  have hreport : (k.report c tool testDirectory).Stays P := by
    unfold CompilerPerf.report
    refine Job.Keeps.get.after fun m => ?_
    have hend : Job.Stays P (do
        let list := testDirectory / "COMPGRAPHFILES"
        Regression.note "[Creating compiler performance graphs now]"
        let command := tool.command
          ["-p", k.datDirectory.text, "-o", k.htmlDirectory.text, "-a",
            "Chapel Compiler Performance Graphs", "-n", k.testName]
          ["-g", list.text, "-t", testDirectory.text, "-m", "all:v,examples:v", "-x"] testDirectory
        let result := if ← GraphTool.run command then "Success" else "Error"
        Regression.note ("[" ++ result ++ " generating compiler performance graphs from " ++
          list.text ++ " in " ++ k.htmlDirectory.text ++ "]")) := by
      refine (h.stays_note _).after fun _ => ?_
      exact (h.graphTool (hg _ _ _)).after fun _ => h.stays_note _
    refine (h.stays_note _).after fun _ => ?_
    refine (Job.Keeps.lift (h.capture (hc _))).after fun output => ?_
    split
    · refine (h.stays_note _).after fun _ => ?_
      exact (h.stays_note _).after fun _ => hend
    · exact (h.stays_note _).after fun _ => hend
  unfold CompilerPerf.finish
  refine hreport.after fun _ => ?_
  refine Job.Keeps.get.after fun m => ?_
  split
  · rw [hk]
    exact h.clear
  · exact Job.Keeps.given _

theorem recordCommit (h : Lasting tmp A P) {c : Context}
    (hc : ∀ arguments, A { program := (c.testUtil "computePerfStats").text, arguments
                           environment := c.scope none })
    (datDirectory : Path) (commit : Option String) :
    (Regression.recordCommit c datDirectory commit).Stays P := by
  unfold Regression.recordCommit
  refine (h.makeDirectories _).after fun _ => ?_
  refine (h.writeText _ _).after fun _ => ?_
  refine (h.writeText _ _).after fun _ => ?_
  refine (h.stays_note _).after fun _ => ?_
  refine (Job.Keeps.lift (h.capture (hc _))).after fun output => ?_
  split <;> exact h.stays_note _

end Running

/-- A performance plan that the settings ask for, whose timings lie below the runners' directory. -/
structure Planned (tmp : Path) (o : Settings) (plan : PerfPlan) : Prop where
  timings : ∀ k ∈ plan.compiler, k.tempDatDirectory = timings tmp
  graphs : plan.graphs.isSome → o.performance ∨ o.genGraphs
  compiler : plan.compiler.isSome → o.compPerformance

namespace Planned

variable {p : Phases} {file : Path} {c : Command}

theorem graphed (hp : Planned tmp p.settings p.plan) (h : p.graphs.isSome) :
    p.settings.performance ∨ p.settings.genGraphs := by
  rw [Phases.graphs, Option.isSome_map] at h
  exact hp.graphs h

/-- What a file can have is what the settings allow. -/
theorem atFile (hp : Planned tmp p.settings p.plan) (h : p.AtFile file c) : p.settings.Allows c := by
  cases h with
  | cleaner => exact .cleaner _ _ _
  | runner m hclean => exact .runner _ _ _ _ hclean
  | graphs arguments trailing d hg =>
    exact .graphs _ _ _ _ ((hp.graphed hg).imp_right .inl)

theorem atDirectory (hp : Planned tmp p.settings p.plan) (h : p.AtDirectory c) :
    p.settings.Allows c := by
  cases h with
  | cleaner d => exact .cleaner _ _ _
  | runner m d hclean => exact .runner _ _ _ _ hclean
  | condition d script hclean => exact .condition _ d script hclean
  | graphs arguments trailing d hg =>
    exact .graphs _ _ _ _ ((hp.graphed hg).imp_right .inl)

theorem atEnd (hp : Planned tmp p.settings p.plan) (h : p.AtEnd c) : p.settings.Allows c := by
  cases h with
  | combine hk seconds => exact .combine _ _ seconds (hp.compiler (by rw [hk]; rfl))
  | graphs arguments trailing d hg =>
    apply Settings.Allows.graphs
    rcases hg with hg | hcomp
    · exact (hp.graphed hg).imp_right .inl
    · exact .inr (.inr (hp.compiler hcomp))

end Planned

section Phases

variable {p : Phases}

/-- All graphs of a session are generated by one tool. -/
theorem graphs_tool {g : PerfGraphs} (hg : p.graphs = some g) :
    p.graphs.isSome ∧ g.tool = p.tool := by
  rw [hg]
  rw [Phases.graphs, Option.map_eq_some_iff] at hg
  obtain ⟨plan, -, rfl⟩ := hg
  exact ⟨rfl, rfl⟩

theorem singleFile (h : Lasting tmp A P) {file : Path} (hA : ∀ c, p.AtFile file c → A c) :
    (p.singleFile file).Stays P := by
  unfold Phases.singleFile
  refine (h.stays_note _).after fun _ => ?_
  refine (h.stays_note _).after fun _ => ?_
  refine (h.clean (hA _ .cleaner)).after fun _ => ?_
  have hgraph : (p.graphFile file).Stays P := by
    unfold Phases.graphFile
    split
    · split
      · next g hg =>
        obtain ⟨hsome, htool⟩ := graphs_tool hg
        refine h.forTest (g := g) ?_ file
        rw [htool]
        exact fun _ _ _ => hA _ (.graphs _ _ _ hsome)
      · exact Job.Keeps.given _
    · exact Job.Keeps.given _
  have hend : ∀ code : Int, Job.Stays P (do
      if code ≠ 0 then
        Regression.note ("[Error running sub_test (code " ++ toString code ++ ") for " ++
          p.fileContext.displayPath file ++ "]")
      if p.settings.progress then
        Regression.complain "[done]"
      p.graphFile file) := fun code =>
    Job.Keeps.whether (h.stays_note _)
      (Job.Keeps.whether (Job.Keeps.lift (h.complain _)) hgraph)
  have hzero : Job.Stays P (pure 0 : Job Int) := Job.Keeps.given _
  split
  · next hclean =>
    have hrunner : ∀ m, A (Runner.command p.fileContext
        (Runner.resolve m p.fileContext (Phases.place file)) (Phases.place file)
        ((some file).map Runner.nameOf)) := fun m => hA _ (.runner m (by simpa using hclean))
    have hrun := h.invoke hrunner p.settings.progress
    exact Job.Keeps.either (hrun.after hend) (hzero.after hend)
  · exact Job.Keeps.given _

theorem handles (h : Lasting tmp A P) (hA : ∀ c, p.AtDirectory c → A c) : Handles P p.handle := by
  intro directory mode
  unfold Phases.handle
  split
  · split
    · next g hg =>
      obtain ⟨hsome, htool⟩ := graphs_tool hg
      refine h.forDirectory (g := g) ?_ directory
      rw [htool]
      exact fun _ _ _ => hA _ (.graphs _ _ _ hsome)
    · exact Job.Keeps.given _
  · refine (h.clean (hA _ (.cleaner _))).after fun _ => ?_
    split
    · next hclean =>
      refine (h.invoke (fun m => hA _ (.runner m _ (by simpa using hclean))) _).after
        fun code => ?_
      split
      · exact h.stays_note _
      · exact Job.Keeps.given _
    · exact Job.Keeps.given _

theorem directory (h : Lasting tmp A P) (hA : ∀ c, p.AtDirectory c → A c) (root : Path) :
    (p.directory root).Stays P := by
  have hask : Asks A p.directoryContext (Phases.walkOptions p.settings) := fun hclean d script =>
    hA _ (.condition d script hclean)
  unfold Phases.directory
  exact (Job.Keeps.each fun mode _ => h.walk hask (h.handles hA) root).after fun _ =>
    Job.Keeps.given _

theorem conclude (h : Lasting tmp A P) (hA : ∀ c, p.AtEnd c → A c)
    (hk : ∀ k ∈ p.plan.compiler, k.tempDatDirectory = timings tmp) : p.conclude.Stays P := by
  unfold Phases.conclude
  have hlist : Job.Stays P (do
      if p.settings.genGraphs then
        if let some g := p.graphs then
          g.fromList p.layout.testDirectory p.settings.perfLabel) := by
    split
    · split
      · next g hg =>
        obtain ⟨hsome, htool⟩ := graphs_tool hg
        refine h.fromList (g := g) ?_ _ _
        rw [htool]
        exact fun _ _ _ => hA _ (.graphs _ _ _ (.inl hsome))
      · exact Job.Keeps.given _
    · exact Job.Keeps.given _
  cases hplan : p.plan.compiler with
  | none => exact hlist
  | some k =>
    have hsome : p.plan.compiler.isSome := by
      rw [hplan]
      rfl
    exact (h.finishTimings (hk k hplan) (fun seconds => hA _ (.combine hplan seconds))
      (fun _ _ _ => hA _ (.graphs _ _ _ (.inr hsome))) _).after fun _ => hlist

/-- All phases are made of such steps, where the timings lie below the runners' directory. -/
theorem phases (h : Lasting tmp A P) (hA : ∀ c, p.settings.Allows c → A c)
    (hp : Planned tmp p.settings p.plan) (files directories : List Path) :
    (p.run files directories).Stays P := by
  rw [Phases.run_eq]
  refine (Job.Keeps.each fun file _ => h.singleFile fun c hc => hA c (hp.atFile hc)).after fun _ => ?_
  refine (Job.Keeps.each fun root _ =>
    h.directory (fun c hc => hA c (hp.atDirectory hc)) root).after fun _ => ?_
  exact h.conclude (fun c hc => hA c (hp.atEnd hc)) hp.timings

end Phases

end Lasting

end Regression
