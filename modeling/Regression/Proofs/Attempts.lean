import Regression.Proofs.Balance

namespace Regression

namespace Goes

variable {m₁ m m' : Machine} {asked : List Asking}

/-- What a tool prints and is relayed goes on by its messages. -/
theorem followed (h : Goes m₁ asked m) (c : Command) :
    Goes m₁ (asked ++ [⟨c, m⟩]) (c.follow.on m).2 := by
  have hstarted := h.started c
  rw [Command.follow_eq, Job.on_bind]
  cases hstart : c.start.on m with
  | mk result left =>
    rw [hstart] at hstarted
    cases result with
    | error e => exact hstarted
    | ok ended =>
      have hline : ∀ line ∈ Text.rawLines ended.joined,
          (note (Text.decodeLossy line)).Stays (Goes m₁ (asked ++ [⟨c, m⟩])) :=
        fun _ _ _ hm => ⟨hm.noted _, fun _ _ => trivial⟩
      exact (Ended.relay_stays hline left hstarted).1

theorem captured (h : Goes m₁ asked m) (c : Command) :
    Goes m₁ (asked ++ [⟨c, m⟩]) ((attempt c.capture).on m).2 := by
  have hstarted := h.started c
  rw [attempt_on, Command.capture, Command.captureWith, Job.on_bind]
  cases hstart : c.start.on m with
  | mk result left =>
    rw [hstart] at hstarted
    cases result with
    | error e => exact hstarted
    | ok ended =>
      simp only [↓reduceIte, Job.on_bind, Job.on_modify]
      split <;> exact hstarted.diagnosed _

/-- A run of the helper and the line that tells how it ended. -/
theorem reported {c : Command} {verdict : Bool → String} (h : Goes m₁ asked m)
    (hon : (GraphTool.reported c verdict).on m = (.ok (), m')) :
    Goes m₁ (asked ++ [⟨c, m⟩]) m' := by
  obtain ⟨ok, left, hrun, hnote⟩ := Job.bind_ok hon
  obtain rfl : (c.follow.on m).2 = left := by rw [← GraphTool.run_left, hrun]
  have hgoes := (h.followed c).noted (verdict ok)
  rwa [hnote] at hgoes

theorem announced {c : Command} {announced : String} {verdict : Bool → String} (h : Goes m₁ asked m)
    (hon : Job.on (do note announced; GraphTool.reported c verdict) m = (.ok (), m')) :
    Goes m₁ (asked ++ [⟨c, ((note announced).on m).2⟩]) m' := by
  obtain ⟨_, left, hnote, hreported⟩ := Job.bind_ok hon
  have hnoted := h.noted announced
  rw [hnote] at hnoted ⊢
  exact hnoted.reported hreported

end Goes

/-- An attempt to make graphs, which asks some helpers and then the graph helper `a`: it tells how that
one ended by its last line, and fails by nothing but its log and what `E` allows. -/
structure Attempt (E : Error → Prop) (before : List Asking) (a : Asking)
    (printed messages : List String) (m : Machine) (r : Except Error Unit × Machine) : Prop where
  graphs : a.graphs = true
  tells : Tells E messages m r
  concludes : Concludes a printed messages
  asks : (∀ e, r.1 = .error e → E e) → Goes m (before ++ [a]) r.2

/-- Where no error is allowed but that of the log, an attempt that no other error ends answers. -/
theorem Attempt.of_ok {before : List Asking} {a : Asking} {printed messages : List String}
    {m : Machine} {r : Except Error Unit × Machine} (hgraphs : a.graphs = true)
    (htells : TellsOnly messages m r) (hconcludes : Concludes a printed messages)
    (hgoes : ∀ m', r = (.ok (), m') → Goes m (before ++ [a]) m') :
    Attempt (fun _ => False) before a printed messages m r := by
  refine ⟨hgraphs, htells, hconcludes, fun hall => ?_⟩
  obtain ⟨answer, m'⟩ := r
  cases answer with
  | ok _ => exact hgoes m' rfl
  | error e => exact (hall e rfl).elim

namespace PerfGraphs

variable (g : PerfGraphs)

theorem generate_attempts (d : Path) (names : List String) (m : Machine) :
    Attempt (fun _ => False) [] (g.asked d names m) (g.asked d names m).relayed (g.lines d names m) m
      ((g.generate d names).on m) := by
  have htool : (g.command d names).tool = "genGraphs" :=
    Command.tool_join rfl (by decide) (by decide)
  refine .of_ok (beq_iff_eq.mpr htool) (g.generate_tells d names m) (g.lines_conclude d names m)
    fun m' hon => ?_
  rw [generate_eq] at hon
  exact Goes.begun.announced hon

/-- What is done for the graph files of a directory. -/
structure OfDirectory (d : Path) (m : Machine) : Prop where
  idle : filesIn m d = [] → (g.forDirectory d).on m = (.ok (), m)
  attempt : filesIn m d ≠ [] → Attempt (fun _ => False) [] (g.asked d (filesIn m d) m)
    (g.asked d (filesIn m d) m).relayed (g.lines d (filesIn m d) m) m ((g.forDirectory d).on m)
  /-- The names are those of all entries that end as graph files do. -/
  names : ∀ name, name ∈ filesIn m d ↔ ∃ entries, m.list d = .ok entries ∧
    name ∈ entries.map (·.1) ∧ Text.endsWith name ".graph" = true
  /-- They end the arguments of the helper, in byte order and each once. -/
  passed : filesIn m d <:+ (g.asked d (filesIn m d) m).command.arguments
  sorted : m.files.WellFormed → (filesIn m d).Pairwise (· < ·)

theorem ofDirectory (d : Path) (m : Machine) : g.OfDirectory d m where
  idle hnone := by rw [forDirectory_on, if_pos hnone]
  attempt hsome := by
    rw [forDirectory_on, if_neg hsome]
    exact g.generate_attempts d _ m
  names _ := mem_filesIn
  passed := by
    rw [asked, command, GraphTool.command, ← List.append_assoc]
    exact List.suffix_append _ _
  sorted h := filesIn_sorted h d

/-- What is done for the graph file of a test. -/
structure OfTest (test : Path) (m : Machine) : Prop where
  idle : m.isFile (fileFor test) = false → (g.forTest test).on m = (.ok (), m)
  attempt : m.isFile (fileFor test) = true →
    Attempt (fun _ => False) [] (g.asked (test.parent.getD ⟨"."⟩) [(fileFor test).text] m)
      (g.asked (test.parent.getD ⟨"."⟩) [(fileFor test).text] m).relayed
      (g.lines (test.parent.getD ⟨"."⟩) [(fileFor test).text] m) m ((g.forTest test).on m)

theorem ofTest (test : Path) (m : Machine) : g.OfTest test m where
  idle hnone := by rw [forTest_on, hnone, if_neg Bool.false_ne_true]
  attempt hfile := by
    rw [forTest_on, if_pos hfile]
    exact g.generate_attempts _ _ m

theorem fromList_attempts (testDirectory : Path) (perfLabel : String) (m : Machine) :
    Attempt (fun _ => False) [] (g.listAsked testDirectory perfLabel m)
      (g.listAsked testDirectory perfLabel m).relayed (g.listLines testDirectory perfLabel m) m
      ((g.fromList testDirectory perfLabel).on m) := by
  have htool : (g.listCommand testDirectory perfLabel).tool = "genGraphs" :=
    Command.tool_join rfl (by decide) (by decide)
  refine .of_ok (beq_iff_eq.mpr htool) (g.fromList_tells testDirectory perfLabel m)
    (g.listLines_conclude testDirectory perfLabel m) fun m' hon => ?_
  rw [fromList_eq] at hon
  exact Goes.begun.announced hon

end PerfGraphs

namespace CompilerPerf

variable (k : CompilerPerf) {context : Context} {tool : GraphTool} {testDirectory : Path}
  {m m' : Machine}

theorem combining_goes (hon : (k.combining context).on m = (.ok (), m')) :
    Goes m [k.combiningAsked context m] m' := by
  rw [combining, Job.on_bind, Job.on_get] at hon
  obtain ⟨_, m₁, hnote, hon⟩ := Job.bind_ok hon
  have hasked : k.combiningAsked context m =
      ⟨k.combineCommand context (m.uptime - k.started), m₁⟩ := by
    rw [combiningAsked, hnote]
  have hnoted : Goes m [] ((note combiningLine).on m).2 := Goes.begun.noted _
  rw [hnote] at hnoted
  have hcaptured := hnoted.captured (k.combineCommand context (m.uptime - k.started))
  rw [Job.on_bind, Job.on_lift] at hon
  rw [hasked]
  generalize attempt (k.combineCommand context (m.uptime - k.started)).capture = e at hon hcaptured
  -- Whatever was printed, one or two messages end the merging.
  cases hprinted : (e.on m₁).1 with
  | none =>
    rw [hprinted] at hon
    have hgoes := hcaptured.noted uncombinedLine
    rwa [show (note uncombinedLine).on _ = _ from hon] at hgoes
  | some output =>
    rw [hprinted] at hon
    obtain ⟨_, m₂, houtput, hon⟩ := Job.bind_ok hon
    have hgoes := (hcaptured.noted output).noted combinedLine
    rw [houtput] at hgoes
    rwa [hon] at hgoes

theorem report_goes (hon : (k.report context tool testDirectory).on m = (.ok (), m')) :
    Goes m [k.combiningAsked context m, k.graphAsked context tool testDirectory m] m' := by
  rw [report_eq] at hon
  obtain ⟨_, m₁, hcombining, hon⟩ := Job.bind_ok hon
  have hgoes := (k.combining_goes hcombining).announced hon
  rw [graphAsked, hcombining]
  exact hgoes

theorem finish_attempts (context : Context) (tool : GraphTool) (testDirectory : Path) (m : Machine) :
    Attempt (k.Stuck ((k.report context tool testDirectory).on m).2) [k.combiningAsked context m]
      (k.graphAsked context tool testDirectory m) (k.reportPrinted context tool testDirectory m)
      (k.reportLines context tool testDirectory m) m ((k.finish context tool testDirectory).on m) := by
  have htool : (k.graphCommand tool testDirectory).tool = "genGraphs" :=
    Command.tool_join rfl (by decide) (by decide)
  refine ⟨beq_iff_eq.mpr htool, k.finish_tells context tool testDirectory m,
    k.reportLines_conclude context tool testDirectory m, fun hall => ?_⟩
  unfold finish at hall ⊢
  rw [Job.on_bind] at hall ⊢
  cases hreport : (k.report context tool testDirectory).on m with
  | mk answer m₁ =>
    rw [hreport] at hall
    cases answer with
    | error e =>
      -- A report fails by its log alone, and that the timings are not.
      obtain ⟨file, fault, rfl⟩ := ((k.report_tells context tool testDirectory m).failure e
        (congrArg Prod.fst hreport)).resolve_right id
      obtain ⟨_, -, -, hsame⟩ := hall _ rfl
      cases hsame
    | ok _ =>
      have hgoes := k.report_goes hreport
      simp only [Job.on_bind, Job.on_get]
      split
      · exact hgoes.edited _
      · exact hgoes

end CompilerPerf

end Regression
