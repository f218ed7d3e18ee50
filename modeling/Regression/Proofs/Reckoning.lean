import Regression.Proofs.Balance

namespace Regression

open Summary (graphLines)
open Text (Foreign OneLine Unmarked)

/-- What a tool that prints no mark is listened to saying has none. -/
theorem Tools.Discreet.printed {tools : Tools} (h : tools.Discreet) {earlier : List Command}
    {c : Command} {cwd : Location} {files : FileTree} :
    ∀ output ∈ Command.printed (tools earlier c cwd files), Unmarked output := by
  intro output houtput
  cases htool : tools earlier c cwd files with
  | error fault =>
    rw [htool] at houtput
    cases houtput
  | ok ended =>
    rw [htool] at houtput
    simp only [Command.printed, Option.mem_def, Option.ite_none_right_eq_some,
      Option.some.injEq] at houtput
    rw [← houtput.2]
    exact (h earlier c cwd files ended htool).2

/-- A message that shows something between a head and a tail. -/
theorem Text.Foreign.shows {head shown tail : String}
    (h : Foreign head ∧ OneLine head ∧ OneLine tail) (hshown : OneLine shown) :
    Unmarked (head ++ shown ++ tail) :=
  (h.1.append shown |>.append tail).unmarked
    (OneLine.unmarkedBelow (by simp only [Text.oneLine_append]; exact ⟨⟨h.2.1, hshown⟩, h.2.2⟩))

namespace Faring

variable {α β : Type} {K : Prop} {m₁ m : Machine} {base : List Change} {s f : Nat}
  {V : Fatal → Machine → Prop} {text : String} {c : Command}

/-- A job that ends, where it answers, with the balance that it began with. -/
abbrev Steady (K : Prop) (m₁ : Machine) (base : List Change) (V : Fatal → Machine → Prop)
    (j : Job α) : Prop :=
  Job.Clears (Faring K m₁ base 0 0) V j fun _ => Faring K m₁ base 0 0

/-- Only the log keeps a message from being told. -/
theorem clears_note {P Q : Machine → Prop} (h : ∀ m, P m → Q ((Regression.note text).on m).2) :
    Job.Clears P V (Regression.note text) fun _ => Q := by
  refine ⟨fun hm hrun => ?_, fun hm hrun => ?_⟩
  · have hafter := h _ hm
    rwa [hrun] at hafter
  · obtain ⟨file, fault, rfl⟩ := note_logWrite hrun
    trivial

theorem notes (ht : Tidy base → Unmarked text) : Steady K m₁ base V (Regression.note text) :=
  clears_note fun _ hm => hm.note ht

theorem blank : Steady K m₁ base V noteBlank := notes fun _ => Text.unmarked_empty

theorem edits (change : FileTree → Location → Except Fault FileTree) :
    Steady K m₁ base V (Regression.edit change) := by
  refine ⟨fun hm hrun => ?_, fun {m _ _} hm hrun => ?_⟩
  · have hafter := hm.edit change
    rwa [hrun] at hafter
  · obtain ⟨fault, rfl⟩ := (Edited.edit change m).failure _ (congrArg Prod.fst hrun)
    trivial

theorem saying (line : String) : Steady K m₁ base V (liftM (Regression.say line)) :=
  Job.Clears.lift fun _ hm => hm.shown _

/-- A tool that is asked aside, and what it prints. -/
theorem asks (htools : m₁.tools.Discreet) (hc : Aside c) (showDiagnostics : Bool) :
    Job.Clears (Faring K m₁ base 0 0) V (liftM (attempt (c.captureWith showDiagnostics)))
      fun output m => Faring K m₁ base 0 0 m ∧ ∀ text ∈ output, Unmarked text := by
  refine Job.Clears.lift fun m hm => ⟨captured c showDiagnostics (hm.start_aside hc), ?_⟩
  have hanswer : ((attempt (c.captureWith showDiagnostics)).on m).1 =
      Command.printed (m.tools m.commands c m.directory m.files) := by
    cases showDiagnostics with
    | true => exact congrArg Prod.fst (Command.attempt_capture_on c m)
    | false => exact Command.attempt_captureQuiet_answer c m
  rw [hanswer, hm.tools]
  exact htools.printed

/-- What a tool prints and is relayed adds nothing to what the tool itself adds. -/
theorem followed (htools : m₁.tools.Discreet) (hm : m.tools = m₁.tools)
    (h : Faring K m₁ base s f (c.start.on m).2) : Faring K m₁ base s f (c.follow.on m).2 := by
  rw [Command.follow_eq, Job.on_bind]
  rw [Command.start_on] at h ⊢
  cases htool : m.tools m.commands c m.directory m.files with
  | error fault =>
    rw [htool] at h
    exact h
  | ok ended =>
    rw [htool] at h
    have hprinted := (htools m.commands c m.directory m.files ended (hm ▸ htool)).1.messages
    have hline : ∀ line ∈ Text.rawLines ended.joined,
        (Regression.note (Text.decodeLossy line)).Stays (Faring K m₁ base s f) := by
      intro line hline
      have hmarked : Unmarked (Text.trimEnd (Text.decodeLossy line)) :=
        hprinted _ (by rw [Text.messages_eq]; exact List.mem_map_of_mem hline)
      exact fun m hm => ⟨hm.tell _ fun _ hbalanced => hbalanced.unmarked hmarked,
        fun _ _ => trivial⟩
    exact (Ended.relay_stays hline _ h).1

/-- A line that counts, as it is told. -/
theorem graphLines_told {line : String} {category category' : Category} (hline : OneLine line)
    (hends : line.toList.getLast? = some ']')
    (hopens : Text.startsWith line (category'.opening .generating) = true) :
    graphLines category [Text.trimEnd line] = if category' = category then 1 else 0 := by
  have hseen : Text.trimEnd line = line := by
    simpa using Text.trimEnd_seen hends (by decide) ""
  rw [hseen]
  refine Summary.graphLines_line hline ?_ hopens
  rw [hends]
  decide

theorem ends_bracket (s : String) : (s ++ "]").toList.getLast? = some ']' := by simp

theorem opens_category {line : String} {ok : Bool}
    (h : Text.startsWith line (outcomeWord ok) = true) :
    Text.startsWith line ((if ok then Category.success else .error).opening .generating) = true := by
  have hword : ((if ok then Category.success else .error).opening .generating).toList <+:
      (outcomeWord ok).toList := by
    cases ok <;> decide
  rw [Text.startsWith, List.isPrefixOf_iff_prefix] at h ⊢
  exact hword.trans h

/-- The line that tells how an attempt to make graphs ended. -/
structure Verdict (verdict : Bool → String) : Prop where
  opens : ∀ ok, Text.startsWith (verdict ok) (outcomeWord ok) = true
  ends : ∀ ok, (verdict ok).toList.getLast? = some ']'

/-- An attempt to make graphs adds one line and one end of the helper, of the same kind. -/
theorem reported (htools : m₁.tools.Discreet) {verdict : Bool → String} (hv : Verdict verdict)
    (hline : Tidy base → ∀ ok, OneLine (verdict ok)) (hc : c.tool = "genGraphs") :
    Steady K m₁ base V (GraphTool.reported c verdict) := by
  unfold GraphTool.reported
  -- Between the end of the helper and the line that tells of it one of the two is owed.
  have hrun : Job.Clears (Faring K m₁ base 0 0) V (GraphTool.run c) fun ok =>
      Faring K m₁ base (if ok then 1 else 0) (if ok then 0 else 1) := by
    refine ⟨fun {m ok m'} hm hon => ?_, fun {m e m'} hm hon => ?_⟩
    · obtain rfl := (GraphTool.run_tells c m).2 ok m' hon
      obtain rfl : (c.follow.on m).2 = m' := by rw [← GraphTool.run_left, hon]
      refine followed htools hm.tools (hm.start c ?_ ?_ ?_)
      · simp [Asking.keeps, hc]
      · simp [graphSuccesses, Asking.graphs, hc, List.countP_singleton]
      · simp [graphFailures, keepingFailures, Asking.graphs, Asking.keeps, hc, List.countP_singleton]
        cases (Asking.mk c m).succeeds <;> rfl
    · obtain ⟨file, fault, rfl⟩ :=
        ((GraphTool.run_tells c m).1.failure e (congrArg Prod.fst hon)).resolve_right id
      trivial
  refine hrun.bind fun ok => clears_note fun m hm => hm.tell _ fun htidy hbalanced => ?_
  have hcounts : ∀ category, graphLines category [Text.trimEnd (verdict ok)] =
      if (if ok then Category.success else .error) = category then 1 else 0 := fun _ =>
    graphLines_told (hline htidy ok) (hv.ends ok) (opens_category (hv.opens ok))
  refine hbalanced.note ?_ ?_
  · rw [hcounts]
    cases ok <;> rfl
  · rw [hcounts]
    cases ok <;> rfl

section Keeping

/-- A helper that keeps something: where it fails, a line is owed that says so. -/
theorem kept (htools : m₁.tools.Discreet) (hK : K)
    (hc : c.tool ∈ ["combineCompPerfData", "computePerfStats"]) :
    Job.Clears (Faring K m₁ base 0 0) V (liftM (attempt c.capture)) fun output m =>
      Faring K m₁ base 0 (if output.isSome then 0 else 1) m ∧ ∀ text ∈ output, Unmarked text := by
  refine Job.Clears.lift fun m hm => ?_
  have hanswer : ((attempt c.capture).on m).1 =
      Command.printed (m.tools m.commands c m.directory m.files) :=
    congrArg Prod.fst (Command.attempt_capture_on c m)
  have hgraphs : (Asking.mk c m).graphs = false := by
    rcases List.mem_pair.mp hc with hc | hc <;> simp [Asking.graphs, hc]
  have hkeeps : (Asking.mk c m).keeps = true := List.contains_iff_mem.mpr hc
  refine ⟨captured c true (hm.start c (fun _ => hK) ?_ ?_), ?_⟩
  · simp [graphSuccesses, hgraphs]
  · rw [hanswer]
    simp only [graphFailures, keepingFailures, List.countP_singleton, hgraphs, hkeeps,
      Asking.prints, Asking.answer]
    cases Command.printed (m.tools m.commands c m.directory m.files) <;> rfl
  · rw [hanswer, hm.tools]
    exact htools.printed

/-- The line that is owed where a helper has failed. -/
theorem owed {line : String} (hline : OneLine line) (hends : line.toList.getLast? = some ']')
    (hopens : Text.startsWith line (Category.error.opening .generating) = true) :
    Job.Clears (Faring K m₁ base 0 1) V (Regression.note line) fun _ => Faring K m₁ base 0 0 :=
  clears_note fun m hm => hm.tell _ fun _ hbalanced => hbalanced.note
    (by rw [graphLines_told hline hends hopens]; rfl) (by rw [graphLines_told hline hends hopens]; rfl)

theorem combining (htools : m₁.tools.Discreet) (hK : K) (k : CompilerPerf) (context : Context) :
    Steady K m₁ base V (k.combining context) := by
  unfold CompilerPerf.combining
  have hline : ∀ line ∈ [CompilerPerf.combiningLine, CompilerPerf.combinedLine], Unmarked line := by
    intro line hline
    rcases List.mem_pair.mp hline with rfl | rfl <;>
      exact Foreign.unmarked (by decide) (OneLine.unmarkedBelow (by decide))
  refine Job.Clears.get.bind fun seen => ?_
  refine ((notes fun _ => hline _ (by simp)).before fun _ h => h.1).bind fun _ => ?_
  have hcombine : (k.combineCommand context (seen.uptime - k.started)).tool ∈
      ["combineCompPerfData", "computePerfStats"] := by
    rw [Command.tool_join rfl (by decide) (by decide)]
    decide
  refine (kept htools hK hcombine).bind fun output => ?_
  cases output with
  | some output =>
    exact (clears_note fun m hm => hm.1.note fun _ => hm.2 output rfl).bind fun _ =>
      notes fun _ => hline _ (by simp)
  | none => exact (owed (by decide) (by decide) (by decide)).before fun _ h => h.1

theorem recordCommit (htools : m₁.tools.Discreet) (hK : K) (context : Context) {d : Path}
    (hd : OneLine d.text) (commit : Option String) :
    Steady K m₁ base V (Regression.recordCommit context d commit) := by
  have hdat : OneLine (d / "perfSha.dat").text := Path.oneLine_div hd (by decide)
  have hprepare : Steady K m₁ base V (Commit.prepare context d commit) :=
    (edits _).bind fun _ => (edits _).bind fun _ => edits _
  rw [recordCommit_eq]
  refine hprepare.bind fun _ => ?_
  refine (notes fun _ => Foreign.shows (by decide) hdat).bind fun _ => ?_
  have hhelper : (Commit.helper context d).tool ∈ ["combineCompPerfData", "computePerfStats"] := by
    rw [Command.tool_join rfl (by decide) (by decide)]
    decide
  refine (kept htools hK hhelper).bind fun output => ?_
  cases output with
  | some output => exact clears_note fun m hm => hm.1.note fun _ => hm.2 output rfl
  | none =>
    have hline : OneLine (Commit.failed d) := by
      unfold Commit.failed
      simp only [Text.oneLine_append]
      exact ⟨⟨by decide, hdat⟩, by decide⟩
    have hends : (Commit.failed d).toList.getLast? = some ']' := ends_bracket _
    have hopens : Text.startsWith (Commit.failed d) "[Error" = true := by
      unfold Commit.failed
      rw [String.append_assoc]
      exact Text.startsWith_append (by decide) _
    exact (owed hline hends hopens).before fun _ h => h.1

end Keeping

section Graphs

variable {g : PerfGraphs}

theorem generate (htools : m₁.tools.Discreet) (hhtml : OneLine g.htmlDirectory.text) {d : Path}
    (hd : Tidy base → OneLine d.text) (names : List String) :
    Steady K m₁ base V (g.generate d names) := by
  have htarget : Tidy base →
      OneLine ("graph_files in " ++ d.text ++ " in " ++ g.htmlDirectory.text) := fun htidy => by
    simp only [Text.oneLine_append]
    exact ⟨⟨⟨by decide, hd htidy⟩, by decide⟩, hhtml⟩
  have hverdict : Verdict (g.verdict d) := ⟨g.verdict_opens d, fun _ => ends_bracket _⟩
  rw [PerfGraphs.generate_eq]
  refine (notes fun htidy => Foreign.shows (by decide) (htarget htidy)).bind fun _ => ?_
  refine reported htools hverdict (fun htidy ok => ?_) (Command.tool_join rfl (by decide) (by decide))
  rw [PerfGraphs.verdict, Text.oneLine_append, Text.oneLine_append]
  refine ⟨⟨?_, htarget htidy⟩, by decide⟩
  cases ok <;> decide

theorem forDirectory (htools : m₁.tools.Discreet) (hhtml : OneLine g.htmlDirectory.text) {d : Path}
    (hd : Tidy base → OneLine d.text) : Steady K m₁ base V (g.forDirectory d) := by
  unfold PerfGraphs.forDirectory
  refine Job.Clears.get.bind fun m => ?_
  simp only
  split
  · exact (generate htools hhtml hd _).before fun _ h => h.1
  · exact Job.Clears.pure fun _ h => h.1

theorem fromList (htools : m₁.tools.Discreet) (hhtml : OneLine g.htmlDirectory.text)
    {testDirectory : Path} (htest : OneLine testDirectory.text) {perfLabel : String}
    (hlabel : perfLabel = "perf") :
    Steady K m₁ base V (g.fromList testDirectory perfLabel) := by
  have hlist : OneLine (PerfGraphs.listPath testDirectory perfLabel).text := by
    rw [PerfGraphs.listPath, if_pos hlabel]
    exact Path.oneLine_div htest (by decide)
  have htarget : OneLine ((PerfGraphs.listPath testDirectory perfLabel).text ++ " in " ++
      g.htmlDirectory.text) :=
    Text.oneLine_append.mpr ⟨Text.oneLine_append.mpr ⟨hlist, by decide⟩, hhtml⟩
  have hexecuting : Unmarked (g.executingList (PerfGraphs.listPath testDirectory perfLabel)) := by
    have hshown : Unmarked ("[Executing genGraphs for " ++ _ ++ "]") := Foreign.shows (by decide) htarget
    rw [← String.append_assoc, ← String.append_assoc] at hshown
    exact hshown
  have hverdict : Verdict (g.listVerdict (PerfGraphs.listPath testDirectory perfLabel)) :=
    ⟨g.listVerdict_opens _, fun _ => ends_bracket _⟩
  rw [PerfGraphs.fromList_eq]
  refine (notes fun _ => hexecuting).bind fun _ => ?_
  refine reported htools hverdict (fun _ ok => ?_) (Command.tool_join rfl (by decide) (by decide))
  simp only [PerfGraphs.listVerdict, Text.oneLine_append, hlist, hhtml]
  cases ok <;> decide

theorem finish (htools : m₁.tools.Discreet) (hK : K) {k : CompilerPerf}
    (hhtml : OneLine k.htmlDirectory.text)
    (context : Context) (tool : GraphTool) {testDirectory : Path}
    (htest : OneLine testDirectory.text) :
    Steady K m₁ base V (k.finish context tool testDirectory) := by
  have hlist : OneLine (testDirectory / "COMPGRAPHFILES").text := Path.oneLine_div htest (by decide)
  have hverdict : Verdict (k.verdict (testDirectory / "COMPGRAPHFILES")) :=
    ⟨k.verdict_opens _, fun _ => ends_bracket _⟩
  have hcreating : Unmarked CompilerPerf.creatingLine :=
    Foreign.unmarked (by decide) (OneLine.unmarkedBelow (by decide))
  have hreport : Steady K m₁ base V (k.report context tool testDirectory) := by
    rw [CompilerPerf.report_eq]
    refine (combining htools hK k context).bind fun _ => ?_
    refine (notes fun _ => hcreating).bind fun _ => ?_
    refine reported htools hverdict (fun _ ok => ?_) (Command.tool_join rfl (by decide) (by decide))
    simp only [CompilerPerf.verdict, Text.oneLine_append, hlist, hhtml]
    cases ok <;> decide
  unfold CompilerPerf.finish
  refine hreport.bind fun _ => Job.Clears.get.bind fun m => ?_
  split
  · exact (edits _).before fun _ h => h.1
  · exact Job.Clears.pure fun _ h => h.1

end Graphs

end Faring

end Regression
