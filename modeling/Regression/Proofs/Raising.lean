import Regression.Proofs.Echoes

namespace Regression

variable {m₁ : Machine}

namespace Echoing

section Graphs

variable {text : String} {c : Command} {g : PerfGraphs} {k : CompilerPerf}

theorem graph (hc : c.tool ∈ followedTools) : Echoing m₁ (GraphTool.run c) := by
  unfold GraphTool.run
  refine (follow hc).bind fun result => ?_
  split
  · exact returned _
  · exact returned _
  · next hnot => exact unlogged hnot

theorem graph_followed (t : GraphTool) (arguments trailing : List String) (d : Path) :
    (t.command arguments trailing d).tool ∈ followedTools := by
  rw [Command.tool_join (s := "genGraphs") rfl (by decide) (by decide)]
  decide

/-- A line that tells how the helper ended. -/
theorem ending {ok : Bool} (h : Text.startsWith text (outcomeWord ok) = true) :
    Echoing m₁ (note text) := by
  have hword : Unlike (outcomeWord ok) := by cases ok <;> decide
  exact unlike (hword.extend (List.isPrefixOf_iff_prefix.mp h))

theorem reported (hc : c.tool ∈ followedTools) {verdict : Bool → String}
    (h : ∀ ok, Text.startsWith (verdict ok) (outcomeWord ok) = true) :
    Echoing m₁ (GraphTool.reported c verdict) :=
  (graph hc).bind fun ok => ending (h ok)

theorem generate (d : Path) (names : List String) : Echoing m₁ (g.generate d names) := by
  rw [PerfGraphs.generate_eq]
  refine (remark (by decide) _ _).bind fun _ => ?_
  exact reported (graph_followed _ _ _ _) (g.verdict_opens d)

theorem forDirectory (d : Path) : Echoing m₁ (g.forDirectory d) := by
  unfold PerfGraphs.forDirectory
  refine look.bind fun m => ?_
  extract_lets files
  split
  · exact generate _ _
  · exact given _

theorem forTest (test : Path) : Echoing m₁ (g.forTest test) := by
  unfold PerfGraphs.forTest
  refine look.bind fun m => ?_
  split
  · exact generate _ _
  · exact given _

theorem fromList (d : Path) (label : String) : Echoing m₁ (g.fromList d label) := by
  rw [PerfGraphs.fromList_eq]
  refine (remark (.append (.append (by decide) _) _) _ _).bind fun _ => ?_
  exact reported (graph_followed _ _ _ _) (g.listVerdict_opens _)

/-- What a tool answers is told, and then more, or else that it failed. -/
theorem merged (context : Context) : Echoing m₁ (k.combining context) := by
  have hquoted : ∀ seconds, (k.combineCommand context seconds).tool ∈ quotedTools := by
    intro seconds
    rw [Command.tool_join (s := "combineCompPerfData") rfl (by decide) (by decide)]
    decide
  unfold CompilerPerf.combining
  refine look.bind fun m => ?_
  refine (plain (by decide)).bind fun _ => ?_
  refine (ask (hquoted _)).bind fun output => ?_
  cases output with
  | some output => exact answer.bind fun _ => plain (by decide)
  | none => exact answerless (unlike (by decide))

theorem finish (context : Context) (t : GraphTool) (d : Path) :
    Echoing m₁ (k.finish context t d) := by
  have hreport : Echoing m₁ (k.report context t d) := by
    rw [CompilerPerf.report_eq]
    refine (merged context).bind fun _ => ?_
    refine (plain (by decide)).bind fun _ => ?_
    exact reported (graph_followed _ _ _ _) (k.verdict_opens _)
  unfold CompilerPerf.finish
  refine hreport.bind fun _ => look.bind fun m => ?_
  split
  · exact (Echoes.bearing m₁).edits _
  · exact given _

end Graphs

section Preparation

variable {s : Setup}

theorem recordCommit (c : Context) (d : Path) (commit : Option String) :
    Echoing m₁ (Regression.recordCommit c d commit) := by
  have hbearing := Echoes.bearing m₁
  unfold Regression.recordCommit
  refine (hbearing.edits _).bind fun _ => ?_
  refine (hbearing.edits _).bind fun _ => ?_
  refine (hbearing.edits _).bind fun _ => ?_
  refine (remark (by decide) _ _).bind fun _ => ?_
  refine (ask ?_).bind fun output => ?_
  · rw [Command.tool_join (s := "computePerfStats") rfl (by decide) (by decide)]
    decide
  · cases output with
    | some output => exact answer
    | none => exact answerless (unlike (.append (.append (by decide) _) _))

theorem specTests (c : Context) : Echoing m₁ (s.specTests c) := by
  unfold Setup.specTests
  split
  · refine (remark (by decide) _ _).bind fun _ => ?_
    refine (follow ?_).bind fun result => ?_
    · rw [Command.tool_single (s := "make") rfl (by decide) (by decide)]
      decide
    · have hcode : ∀ code : Int, Echoing m₁ (do
          if code ≠ 0 then
            throw (.fatal (.specTests s.layout.home))) := by
        intro code
        split
        · exact raise trivial
        · exact given _
      split
      · exact (returned _).bind hcode
      · exact (returned _).bind hcode
      · next hnot => exact Job.Clears.bind (unlogged hnot) hcode
  · exact given _

theorem toolchainReport (c : Context) : Echoing m₁ (Setup.toolchainReport c) := by
  unfold Setup.toolchainReport
  refine blank.bind fun _ => ?_
  refine (plain (by decide)).bind fun _ => ?_
  refine (ask ?_).bind fun output => ?_
  · rw [Command.tool_join (s := "printchplenv") rfl (by decide) (by decide)]
    decide
  · cases output with
    | some output => exact answer.bind fun _ => plain (by decide)
    | none => exact answerless (plain (by decide))

end Preparation

end Echoing

theorem Setup.checkValgrind_own {t : Toolchain} {cause : Fatal}
    (h : checkValgrind t = .error cause) : cause.IsOwn := by
  unfold checkValgrind at h
  extract_lets supported at h
  split at h
  · cases h
    trivial
  · split at h
    · cases h
      trivial
    · split at h
      · cases h
        trivial
      · cases h

namespace Setup

variable {α : Type} {s : Setup}

theorem enduring_echoes (m₁ : Machine) : Enduring Plain fun _ => Echoes m₁ :=
  .of_bearing ((Echoes.bearing m₁).narrow fun _ h => h.aloof)

/-- A step of setup that tells the log of no error as ends the tests, but by what a tool prints. -/
abbrev Resounds (m₁ : Machine) (x : Arranging α) : Prop :=
  Holds (fun _ => Echoes m₁) (Breaking m₁) x

namespace Resounds

theorem raise {cause : Fatal} {post : α → Context → Machine → Prop} (h : cause.IsOwn) :
    Clears (fun _ => Echoes m₁) (Breaking m₁) (throw (.fatal cause) : Arranging α) post :=
  Clears.throw fun _ _ hm => ⟨h, hm⟩

theorem valgrind : Resounds m₁ s.valgrind := by
  have h := enduring_echoes m₁
  unfold Setup.valgrind
  extract_lets o quiet threads
  have hquiet : ∀ u, Resounds m₁ (quiet u) := by
    intro u
    refine (h.provide _ _).after fun _ => ?_
    split
    · exact Clears.given _
    · next cause hcause => exact raise (checkValgrind_own hcause)
  have hthreads : ∀ u, Resounds m₁ (threads u) := by
    intro u
    refine Clears.either ?_ (Clears.given _)
    refine (Clears.bound _).after fun value => ?_
    split
    · exact (h.provide _ _).after hquiet
    · exact (h.remark (by decide) _ _).after hquiet
  split
  · refine (h.note (by decide)).after fun _ => ?_
    refine (h.firstLineOf _ _).after fun binary => ?_
    split
    · refine (h.firstLineOf _ _).after fun version => ?_
      refine (h.remark (by decide) _ _).after fun _ => ?_
      refine (h.remark (by decide) _ _).after fun _ => ?_
      refine (h.provide _ _).after fun _ => ?_
      exact (h.provide _ _).after hthreads
    · exact Clears.after (raise trivial) hthreads
  · refine (h.provide _ _).after fun _ => ?_
    split
    · refine (h.note (by decide)).after fun _ => ?_
      exact (h.provide _ _).after hthreads
    · refine (h.note (by decide)).after fun _ => ?_
      exact (h.provide _ _).after hthreads

theorem general : Resounds m₁ s.general := by
  have h := enduring_echoes m₁
  unfold Setup.general
  extract_lets rest
  have hrest : ∀ u, Resounds m₁ (rest u) := by
    intro u
    refine (h.remark (by decide) _ _).after fun _ => ?_
    refine (h.remark (by decide) _ _).after fun _ => ?_
    refine (h.remark (by decide) _ _).after fun _ => ?_
    refine (h.remark (by decide) _ _).after fun _ => ?_
    refine (h.remark (by decide) _ _).after fun _ => ?_
    exact (h.remark (by decide) _ _).after fun _ => valgrind
  refine Clears.world.after fun m => ?_
  refine (h.remark (by decide) _ _).after fun _ => ?_
  refine (h.git _ _).after fun branch => ?_
  refine (h.git _ _).after fun commit => ?_
  refine (h.remark (.append (.append (by decide) _) _) _ _).after fun _ => ?_
  refine Clears.world.after fun m' => ?_
  split
  · exact (h.say _).after hrest
  · exact hrest ()

theorem programs (execopts : String) : Resounds m₁ (s.programs execopts) := by
  have h := enduring_echoes m₁
  unfold Setup.programs
  extract_lets o compiler launchCmd rest
  have hrest : ∀ u, Resounds m₁ (rest u) := by
    intro u
    refine (h.remark (by decide) _ _).after fun _ => ?_
    refine Clears.after (Clears.modify fun _ _ hm => hm) fun _ => ?_
    refine (h.remark (by decide) _ _).after fun _ => ?_
    refine (h.provide _ _).after fun _ => ?_
    refine (h.remark (by decide) _ _).after fun _ => ?_
    refine (h.provide _ _).after fun _ => ?_
    refine (h.remark (by decide) _ _).after fun _ => ?_
    exact Clears.context.after fun _ => h.provide _ _
  exact Clears.world.after fun m => Clears.whether (raise trivial) (hrest ())

theorem scripts (cwd : Path) (role : ScriptRole) (asked : List Path) :
    Echoing m₁ (systemScripts cwd role asked) := by
  induction asked with
  | nil => exact .given _
  | cons script rest ih =>
    rw [systemScripts]
    refine Echoing.look.bind fun m => ?_
    refine Job.Clears.whether (Echoing.raise trivial) ?_
    refine (Echoing.remark (.append (.append (by decide) _) _) _ _).bind fun _ => ?_
    exact ih.bind fun _ => Echoing.given _

theorem systemWide : Resounds m₁ s.systemWide := by
  have h := enduring_echoes m₁
  have hscripts : ∀ role asked, Resounds m₁ (liftM (systemScripts s.cwd role asked)) :=
    fun role asked => Clears.lift fun _ => scripts s.cwd role asked
  unfold Setup.systemWide
  extract_lets o rest
  have hrest : ∀ u, Resounds m₁ (rest u) := fun _ =>
    (hscripts _ _).after fun _ => Clears.either (h.provide _ _) (Clears.given _)
  split
  · exact (hscripts _ _).after fun _ => (h.provide _ _).after hrest
  · exact hrest ()

theorem executables (execopts : String) : Resounds m₁ (s.executables execopts) := by
  have h := enduring_echoes m₁
  unfold Setup.executables
  refine (programs execopts).after fun _ => ?_
  refine h.configuration.after fun _ => ?_
  refine (h.launching _).after fun _ => ?_
  exact h.locales.after fun _ => systemWide

theorem arrange : Resounds m₁ s.arrange := by
  have h := enduring_echoes m₁
  unfold Setup.arrange
  refine h.optionVariables.after fun execopts => ?_
  refine general.after fun _ => ?_
  refine h.performanceFlags.after fun _ => ?_
  refine (executables execopts).after fun _ => ?_
  exact h.performanceDirectories fun c d commit =>
    Clears.lift fun _ => Echoing.recordCommit c d commit

end Resounds

theorem run_echoing (s : Setup) (c : Context) : Echoing m₁ (s.run c) := by
  unfold Setup.run
  exact (Resounds.arrange c).bind fun _ => Echoing.given _

end Setup

namespace Walk

variable {α : Type} {c : Context} {o : WalkOptions} {mode : RunMode} {handle : Handler}
  {text head : String}

/-- The same of a step of a walk. -/
abbrev Resounds (m₁ : Machine) (x : Walking α) : Prop :=
  Clears (Echoes m₁) (Breaking m₁) x fun _ => Echoes m₁

namespace Resounds

theorem plain (h : Plain text) : Resounds m₁ (liftM (note text)) := Clears.lift (Echoing.plain h)

theorem remark (h : Plain head) (shown tail : String) :
    Resounds m₁ (liftM (note (head ++ shown ++ tail))) :=
  Clears.lift (Echoing.remark h shown tail)

theorem world : Resounds m₁ (getThe Machine) := Clears.lift Echoing.look

theorem reject (d : Path) : Resounds m₁ (Walk.reject d) := by
  unfold Walk.reject
  exact (remark (by decide) _ _).after fun _ => Clears.count _

theorem obey (hh : ∀ d, Echoing m₁ (handle d mode)) (d : Path) {v : Verdict} (hv : Skip.Warns v) :
    Resounds m₁ (Walk.obey o mode handle d v) := by
  have hwarning : ∀ text ∈ Skip.warnings, Plain text := by decide
  unfold Walk.obey
  refine Clears.after (Clears.each fun line _ =>
    Clears.lift (Echoing.effect ((Echoes.bearing m₁).say line))) fun _ => ?_
  refine Clears.after (Clears.each fun text htext => plain (hwarning text (hv text htext)))
    fun _ => ?_
  have hend : ∀ (f : WalkReport → WalkReport) (b : Bool),
      Resounds m₁ (do Walk.count f; pure b) := fun f b =>
    Clears.after (Clears.count f) fun _ => Clears.given _
  split
  · exact Clears.whether (remark (by decide) _ _) (hend _ false)
  · exact Clears.whether (plain (by decide)) (hend _ true)
  · refine Clears.after world fun m => ?_
    split
    · exact Clears.after (Clears.lift (hh d)) fun _ => hend _ true
    · exact Clears.after (remark (by decide) _ _) fun _ => hend _ true

theorem workOn (hh : ∀ d, Echoing m₁ (handle d mode)) (d : Path) :
    Resounds m₁ (Walk.workOn c o mode handle d) := by
  unfold Walk.workOn
  refine Clears.after (Clears.lift Echoing.blank) fun _ => ?_
  refine Clears.after (remark (by decide) _ _) fun _ => ?_
  refine Clears.after (Clears.count _) fun _ => ?_
  split
  · have hnone : Skip.Warns {} := fun _ h => (List.not_mem_nil h).elim
    exact Clears.knowing (Clears.pure fun _ hm => ⟨hm, hnone⟩) fun v hv => obey hh d hv
  · have hjudge : Clears (Echoes m₁) (Breaking m₁) (liftM (liftM (Skip.evaluate c d) : Job Verdict))
        fun v m => Echoes m₁ m ∧ Skip.Warns v :=
      Clears.lift (Job.Clears.lift fun m hm =>
        ⟨(Echoes.bearing m₁).evaluate (fun _ => trivial) m hm, Skip.evaluate_warns c d m⟩)
    exact Clears.knowing hjudge fun v hv => obey hh d hv

theorem visit (hh : ∀ d, Echoing m₁ (handle d mode)) (levels : Nat) (d : Path) :
    Resounds m₁ (Walk.visit c o mode handle levels d) := by
  induction levels generalizing d with
  | zero => exact reject d
  | succ levels ih =>
    rw [Walk.visit]
    refine Clears.after world fun m => ?_
    simp only
    split
    · exact reject d
    · split
      · refine Clears.after (workOn hh d) fun deeper => ?_
        split
        · exact Clears.after (Clears.each fun child _ => ih child) fun _ => Clears.given _
        · exact Clears.given _
      · exact Clears.given _

theorem begin (hh : ∀ d, Echoing m₁ (handle d mode)) (root : Path) :
    Resounds m₁ (Walk.begin c o mode handle root) := by
  unfold Walk.begin
  refine Clears.after world fun m => ?_
  split
  · exact reject root
  · exact visit hh _ root
  · split
    · exact reject root
    · split
      · split
        · exact Clears.after (Clears.each fun child _ => visit hh _ child) fun _ => Clears.given _
        · exact reject root
      · exact Clears.given _
  · exact Clears.given _

end Resounds

end Walk

theorem walk_echoing {c : Context} {o : WalkOptions} {mode : RunMode} {handle : Handler}
    (hh : ∀ d, Echoing m₁ (handle d mode)) (root : Path) :
    Echoing m₁ (walk c o mode handle root) := by
  unfold walk
  refine (Echoing.remark (by decide) _ _).bind fun _ => ?_
  exact (Walk.Resounds.begin hh root {}).bind fun _ => Echoing.given _

namespace Phases

variable {p : Phases}

theorem singleFile_echoing (file : Path) : Echoing m₁ (p.singleFile file) := by
  have hgraph : Echoing m₁ (p.graphFile file) := by
    unfold graphFile
    split
    · split
      · exact Echoing.forTest file
      · exact Echoing.given _
    · exact Echoing.given _
  have hend : ∀ code : Int, Echoing m₁ (do
      if code ≠ 0 then
        note ("[Error running sub_test (code " ++ toString code ++ ") for " ++
          p.fileContext.displayPath file ++ "]")
      if p.settings.progress then
        complain "[done]"
      p.graphFile file) := by
    intro code
    refine Job.Clears.whether (Echoing.unlike ?_) ?_
    · exact .append (.append (.append (.append (by decide) _) _) _) _
    · exact Job.Clears.whether (Echoing.effect ((Echoes.bearing m₁).complain _)) hgraph
  unfold singleFile
  refine Echoing.blank.bind fun _ => ?_
  refine (Echoing.remark (by decide) _ _).bind fun _ => ?_
  refine (Echoing.clean p.fileContext _ _).bind fun _ => ?_
  refine Job.Clears.either ?_ (Echoing.given _)
  exact Job.Clears.either ((Echoing.invoke _ _ _ _).bind hend) ((Echoing.given _).bind hend)

theorem handle_echoing (d : Path) (mode : RunMode) : Echoing m₁ (p.handle d mode) := by
  unfold handle
  split
  · split
    · exact Echoing.forDirectory d
    · exact Echoing.given _
  · refine (Echoing.clean _ d none).bind fun _ => ?_
    split
    · refine (Echoing.invoke _ _ d none).bind fun code => ?_
      split
      · exact Echoing.unlike (.append (.append (.append (.append (by decide) _) _) _) _)
      · exact Echoing.given _
    · exact Echoing.given _

theorem directory_echoing (root : Path) : Echoing m₁ (p.directory root) := by
  unfold directory
  refine Job.Clears.bind (Job.Clears.each fun mode _ => ?_) fun _ => Echoing.given _
  exact walk_echoing (fun d => handle_echoing d mode) root

theorem conclude_echoing : Echoing m₁ p.conclude := by
  unfold conclude
  extract_lets list
  have hlist : ∀ u, Echoing m₁ (list u) := by
    intro u
    simp only [list]
    split
    · split
      · exact Echoing.fromList _ _
      · exact Echoing.given _
    · exact Echoing.given _
  split
  · exact (Echoing.finish _ _ _).bind hlist
  · exact hlist ()

theorem run_echoing (files roots : List Path) : Echoing m₁ (p.run files roots) := by
  rw [Phases.run_eq]
  refine (Job.Clears.each fun file _ => singleFile_echoing file).bind fun _ => ?_
  refine (Job.Clears.each fun root _ => directory_echoing root).bind fun _ => ?_
  exact conclude_echoing

end Phases

namespace Session

variable {s : Session}

theorem prelude_echoing (made : Context × PerfPlan) (files directories : List Path) :
    Echoing m₁ (s.prelude made files directories) := by
  unfold prelude
  extract_lets roots rest
  have hrest : ∀ u, Echoing m₁ (rest u) := by
    intro u
    refine (Echoing.remark (by decide) _ _).bind fun _ => ?_
    refine (Echoing.remark (.append (.append (by decide) _) _) _ _).bind fun _ => ?_
    exact (Echoing.toolchainReport _).bind fun _ => Echoing.given _
  exact Job.Clears.whether (Echoing.specTests _) (hrest ())

theorem execute_echoing (scratch : Scratch) (files directories : List Path) :
    Echoing m₁ (s.execute scratch files directories) := by
  rw [execute_eq]
  refine (s.setup.run_echoing _).bind fun made => ?_
  refine (prelude_echoing made files directories).bind fun roots => ?_
  exact (s.phases made).run_echoing files roots

end Session

end Regression
