import Regression.Proofs.Commits
import Regression.Proofs.Lasting
import Regression.Proofs.Plan

namespace Regression

/-- A command that is asked for, with the machine that it is asked of. -/
structure Asking where
  command : Command
  machine : Machine

namespace Asking

variable (a : Asking)

/-- What the machine's tools make of the command. -/
def answer : Except Fault Ended :=
  a.machine.tools a.machine.commands a.command a.machine.directory a.machine.files

/-- Whether the tool starts and exits with 0. The code of one that is killed is its signal, as a
negative number. -/
def succeeds : Bool :=
  match a.answer with
  | .ok ended => ended.status.code == 0
  | .error _ => false

/-- The messages by which the output of the tool is relayed. -/
def relayed : List String :=
  match a.answer with
  | .ok ended => Text.messages ended.joined
  | .error _ => []

end Asking

/-- A message that tells how an attempt to make graphs ended. -/
def TellsOutcome (text : String) : Prop :=
  Text.startsWith text "[Success generating" = true ∨ Text.startsWith text "[Error generating" = true

instance (text : String) : Decidable (TellsOutcome text) := inferInstanceAs (Decidable (_ ∨ _))

/-- Messages of which the last one tells how the helper ended, and none before it that no tool has
printed. -/
structure Concludes (a : Asking) (printed messages : List String) : Prop where
  of ::
  last : ∃ before outcome, messages = before ++ [outcome] ∧
    Text.startsWith outcome "[Success generating" = a.succeeds ∧
    Text.startsWith outcome "[Error generating" = (!a.succeeds) ∧
    ∀ text ∈ before, text ∉ printed → ¬TellsOutcome text

/-- The first words of the line that tells how the helper ended. -/
def outcomeWord (ok : Bool) : String := if ok then "[Success generating" else "[Error generating"

/-- A line does not begin with the words for both ends. -/
theorem startsWith_outcomeWord {text : String} {ok : Bool}
    (h : Text.startsWith text (outcomeWord ok) = true) (ok' : Bool) :
    Text.startsWith text (outcomeWord ok') = (ok == ok') := by
  by_cases hsame : ok = ok'
  · rw [← hsame, h, beq_self_eq_true]
  · rw [beq_eq_false_iff_ne.mpr hsame, Bool.eq_false_iff]
    intro h'
    rw [Text.startsWith, List.isPrefixOf_iff_prefix] at h h'
    have hapart : ¬(outcomeWord ok).toList <+: (outcomeWord ok').toList ∧
        ¬(outcomeWord ok').toList <+: (outcomeWord ok).toList := by
      cases ok <;> cases ok' <;> first | contradiction | decide
    exact (List.prefix_or_prefix_of_prefix h h').elim hapart.1 hapart.2

theorem not_tellsOutcome {head : String}
    (h : ∀ ok, Text.startsWith head (outcomeWord ok) = false ∧
      Text.startsWith (outcomeWord ok) head = false) (more : String) :
    ¬TellsOutcome (head ++ more) := by
  have hother : ∀ ok, Text.startsWith (head ++ more) (outcomeWord ok) = false := fun ok =>
    Text.startsWith_append_false (h ok).1 (h ok).2
  rintro (htold | htold)
  · exact Bool.false_ne_true ((hother true).symm.trans htold)
  · exact Bool.false_ne_true ((hother false).symm.trans htold)

theorem Concludes.of_opens {a : Asking} {printed before : List String} {outcome : String}
    (h : Text.startsWith outcome (outcomeWord a.succeeds) = true)
    (hbefore : ∀ text ∈ before, text ∉ printed → ¬TellsOutcome text) :
    Concludes a printed (before ++ [outcome]) := by
  refine ⟨before, outcome, rfl, ?_, ?_, hbefore⟩
  · exact (startsWith_outcomeWord h true).trans (by cases a.succeeds <;> rfl)
  · exact (startsWith_outcomeWord h false).trans (by cases a.succeeds <;> rfl)

/-- How a job ends that is to tell its log some messages: it tells them in order, all of them unless
the log refuses one, and fails by nothing but such a log and what `E` allows. -/
structure Tells {α : Type} (E : Error → Prop) (messages : List String) (m : Machine)
    (r : Except Error α × Machine) : Prop where
  told : ∃ told, told <+: messages ∧ r.2.notes = told.reverse ++ m.notes
  all : (∀ e, r.1 = .error e → E e) → r.2.notes = messages.reverse ++ m.notes
  failure : ∀ e, r.1 = .error e → (∃ file fault, e = .logWrite file fault) ∨ E e

namespace Tells

variable {α β : Type} {E : Error → Prop} {m m₁ : Machine} {first rest messages : List String}

theorem of_relays {r : Except Error α × Machine} (h : Relays messages m r)
    (hE : ∀ file fault, ¬E (.logWrite file fault)) : Tells E messages m r where
  told := h.told
  all hall := by
    cases hr : r.1 with
    | ok a => exact h.all a hr
    | error e =>
      obtain ⟨file, fault, rfl⟩ := h.failure e hr
      exact absurd (hall _ hr) (hE file fault)
  failure e he := .inl (h.failure e he)

/-- A job that tells nothing succeeds. -/
theorem silent {a : α} (h : m₁.notes = m.notes) : Tells E [] m (.ok a, m₁) where
  told := ⟨[], List.prefix_rfl, h⟩
  all _ := h
  failure e he := by cases he

theorem note (text : String) (m : Machine) (hE : ∀ file fault, ¬E (.logWrite file fault)) :
    Tells E [Text.trimEnd text] m ((Regression.note text).on m) :=
  of_relays (Relays.note text m) hE

/-- A message that no blank ends is told as it is. -/
theorem line {text : String} (h : Text.trimEnd text = text) (m : Machine)
    (hE : ∀ file fault, ¬E (.logWrite file fault)) :
    Tells E [text] m ((Regression.note text).on m) := by
  have htell := note text m hE
  rwa [h] at htell

/-- From a machine whose log has been told as much. -/
theorem alike {r : Except Error α × Machine} (h : Tells E messages m₁ r)
    (hnotes : m₁.notes = m.notes) : Tells E messages m r := by
  obtain ⟨htold, hall, hfailure⟩ := h
  rw [hnotes] at htold hall
  exact ⟨htold, hall, hfailure⟩

/-- The first job ends by no error but that of its log. -/
theorem bind {j : Job α} {f : α → Job β} (hj : Tells (fun _ => False) first m (j.on m))
    (hE : ∀ file fault, ¬E (.logWrite file fault))
    (hf : ∀ a m', j.on m = (.ok a, m') → Tells E rest m' ((f a).on m')) :
    Tells E (first ++ rest) m ((j >>= f).on m) := by
  rw [Job.on_bind]
  cases hon : j.on m with
  | mk answer m' =>
    rw [hon] at hj
    cases answer with
    | error e =>
      obtain ⟨told, htold, hnotes⟩ := hj.told
      have hlog := (hj.failure e rfl).resolve_right id
      refine ⟨⟨told, htold.trans (List.prefix_append _ _), hnotes⟩, fun hall => ?_, ?_⟩
      · obtain ⟨file, fault, rfl⟩ := hlog
        exact absurd (hall _ rfl) (hE file fault)
      · rintro _ ⟨rfl⟩
        exact .inl hlog
    | ok a =>
      have hnotes : m'.notes = first.reverse ++ m.notes := hj.all nofun
      have hrest := hf a m' hon
      obtain ⟨told, htold, hnotes'⟩ := hrest.told
      refine ⟨⟨first ++ told, (List.prefix_append_right_inj first).mpr htold, ?_⟩, fun hall => ?_,
        hrest.failure⟩
      · simp [hnotes', hnotes]
      · simp [hrest.all hall, hnotes]

end Tells

/-- No error is allowed but that of the log. -/
abbrev TellsOnly {α : Type} (messages : List String) (m : Machine)
    (r : Except Error α × Machine) : Prop := Tells (fun _ => False) messages m r

/-- What holds as long as messages are told holds after all that a tool printed. -/
theorem Ended.relay_stays {P : Machine → Prop} {ended : Ended}
    (h : ∀ line ∈ Text.rawLines ended.joined, (note (Text.decodeLossy line)).Stays P) :
    ended.relay.Stays P :=
  (Job.Keeps.each h).after fun _ => Job.Keeps.given _

namespace GraphTool

theorem run_on (c : Command) (m : Machine) : (run c).on m = match c.follow.on m with
    | (.ok code, m') => (.ok (code == 0), m')
    | (.error (.command _ _ _), m') => (.ok false, m')
    | (.error e, m') => (.error e, m') := by
  rw [run, Job.on_bind, Job.on_outcome]
  cases c.follow.on m with
  | mk result m' =>
    cases result with
    | ok code => rfl
    | error e => cases e <;> rfl

theorem run_left (c : Command) (m : Machine) : ((run c).on m).2 = (c.follow.on m).2 := by
  rw [run_on]
  cases c.follow.on m with
  | mk result m' =>
    cases result with
    | ok code => rfl
    | error e => cases e <;> rfl

/-- How a run of the helper ends. -/
theorem run_tells (c : Command) (m : Machine) :
    TellsOnly (Asking.mk c m).relayed m ((run c).on m) ∧
      ∀ ok m', (run c).on m = (.ok ok, m') → ok = (Asking.mk c m).succeeds := by
  cases htool : m.tools m.commands c m.directory m.files with
  | error fault =>
    have hanswer : (Asking.mk c m).answer = .error fault := htool
    have hfollow : c.follow.on m =
        (.error (.command c.shown (-1) fault.message), { m with commands := c :: m.commands }) := by
      rw [Command.follow_eq, Job.on_bind, Command.start_on, htool]
    rw [run_on, hfollow, Asking.relayed, Asking.succeeds, hanswer]
    refine ⟨.silent rfl, ?_⟩
    rintro ok m' ⟨rfl, rfl⟩
    rfl
  | ok ended =>
    have hanswer : (Asking.mk c m).answer = .ok ended := htool
    -- What the tool leaves has been told as much as before, so the relay counts from there.
    obtain ⟨left, hfollow, hnotes⟩ : ∃ left, c.follow.on m = ended.relay.on left ∧
        left.notes = m.notes := by
      rw [Command.follow_eq, Job.on_bind, Command.start_on, htool]
      exact ⟨_, rfl, rfl⟩
    have hrelays := Tells.of_relays (E := fun _ => False) (ended.relays left) fun _ _ => id
    rw [run_on, hfollow, Asking.relayed, Asking.succeeds, hanswer]
    cases hrelay : ended.relay.on left with
    | mk result m' =>
      rw [hrelay] at hrelays
      have htells := hrelays.alike hnotes
      cases result with
      | ok code =>
        cases Ended.relay_code hrelay
        refine ⟨⟨htells.told, fun _ => htells.all nofun, nofun⟩, ?_⟩
        rintro ok m' ⟨rfl, rfl⟩
        rfl
      | error e =>
        obtain ⟨file, fault, rfl⟩ := (htells.failure e rfl).resolve_right id
        exact ⟨⟨htells.told, fun hall => (hall _ rfl).elim, fun _ he => .inl
          ⟨file, fault, (Except.error.inj he).symm⟩⟩, nofun⟩

/-- A run of the helper and the line that tells how it ended. -/
def reported (c : Command) (verdict : Bool → String) : Job Unit := do
  note (verdict (← run c))

theorem reported_tells {verdict : Bool → String}
    (hverdict : ∀ ok, Text.trimEnd (verdict ok) = verdict ok) (c : Command) (m : Machine) :
    TellsOnly ((Asking.mk c m).relayed ++ [verdict (Asking.mk c m).succeeds]) m
      ((reported c verdict).on m) := by
  obtain ⟨hrun, hanswer⟩ := run_tells c m
  refine hrun.bind (fun _ _ => id) fun ok m' hon => ?_
  rw [hanswer ok m' hon]
  exact Tells.line (hverdict _) m' fun _ _ => id

/-- An attempt that is told of before the helper is asked. -/
theorem announced_tells {announced : String} {verdict : Bool → String}
    (hannounced : Text.trimEnd announced = announced)
    (hverdict : ∀ ok, Text.trimEnd (verdict ok) = verdict ok) (c : Command) (m : Machine) :
    TellsOnly
      (announced :: (Asking.mk c ((note announced).on m).2).relayed ++
        [verdict (Asking.mk c ((note announced).on m).2).succeeds]) m
      (Job.on (do
        note announced
        reported c verdict) m) := by
  refine (Tells.line hannounced m fun _ _ => id).bind (fun _ _ => id) fun _ m' hon => ?_
  rw [hon]
  exact reported_tells hverdict c m'

end GraphTool

namespace PerfGraphs

variable (g : PerfGraphs)

def executing (d : Path) : String :=
  "[Executing genGraphs for " ++
    ("graph_files in " ++ d.text ++ " in " ++ g.htmlDirectory.text) ++ "]"

def verdict (d : Path) (ok : Bool) : String :=
  (if ok then "[Success generating graphs for " else "[Error generating graphs for ") ++
    ("graph_files in " ++ d.text ++ " in " ++ g.htmlDirectory.text) ++ "]"

theorem generate_eq (d : Path) (names : List String) : g.generate d names = (do
    note (g.executing d)
    GraphTool.reported (g.command d names) (g.verdict d)) := by
  unfold generate GraphTool.reported
  refine bind_congr fun _ => bind_congr fun ok => ?_
  cases ok <;> rfl

/-- What a list of all graphs is told of by. -/
def executingList (list : Path) : String :=
  "[Executing genGraphs for " ++ list.text ++ " in " ++ g.htmlDirectory.text ++ "]"

def listVerdict (list : Path) (ok : Bool) : String :=
  "[" ++ (if ok then "Success" else "Error") ++ " generating graphs from " ++ list.text ++ " in " ++
    g.htmlDirectory.text ++ "]"

theorem fromList_eq (testDirectory : Path) (perfLabel : String) :
    g.fromList testDirectory perfLabel = (do
      note (g.executingList (listPath testDirectory perfLabel))
      GraphTool.reported (g.listCommand testDirectory perfLabel)
        (g.listVerdict (listPath testDirectory perfLabel))) := rfl

theorem trimEnd_executing (d : Path) : Text.trimEnd (g.executing d) = g.executing d :=
  Text.trimEnd_seen (t := "]") (c := ']') (by decide) (by decide) _

theorem trimEnd_verdict (d : Path) (ok : Bool) : Text.trimEnd (g.verdict d ok) = g.verdict d ok :=
  Text.trimEnd_seen (t := "]") (c := ']') (by decide) (by decide) _

/-- The helper at work on graph files, when it is asked. -/
def asked (d : Path) (names : List String) (m : Machine) : Asking :=
  ⟨g.command d names, ((note (g.executing d)).on m).2⟩

/-- All that is told of graph files. -/
def lines (d : Path) (names : List String) (m : Machine) : List String :=
  g.executing d :: (g.asked d names m).relayed ++ [g.verdict d (g.asked d names m).succeeds]

theorem verdict_opens (d : Path) (ok : Bool) :
    Text.startsWith (g.verdict d ok) (outcomeWord ok) = true := by
  rw [verdict, String.append_assoc]
  exact Text.startsWith_append (by cases ok <;> decide) _

theorem lines_conclude (d : Path) (names : List String) (m : Machine) :
    Concludes (g.asked d names m) (g.asked d names m).relayed (g.lines d names m) := by
  refine .of_opens (g.verdict_opens d _) fun text htext hprinted => ?_
  rw [(List.mem_cons.mp htext).resolve_right hprinted]
  unfold executing
  rw [String.append_assoc]
  exact not_tellsOutcome (by decide) _

theorem generate_tells (d : Path) (names : List String) (m : Machine) :
    TellsOnly (g.lines d names m) m ((g.generate d names).on m) := by
  rw [generate_eq]
  exact GraphTool.announced_tells (g.trimEnd_executing d) (g.trimEnd_verdict d) _ m

/-- Where there is no graph file, nothing is started and nothing is told. -/
theorem forDirectory_on (d : Path) (m : Machine) : (g.forDirectory d).on m =
    if filesIn m d = [] then (.ok (), m) else (g.generate d (filesIn m d)).on m := by
  rw [forDirectory, Job.on_bind, Job.on_get]
  cases hfiles : filesIn m d with
  | nil => simp [hfiles]
  | cons name names => simp [hfiles]

theorem forTest_on (test : Path) (m : Machine) : (g.forTest test).on m =
    if m.isFile (fileFor test) then
      (g.generate (test.parent.getD ⟨"."⟩) [(fileFor test).text]).on m
    else (.ok (), m) := by
  rw [forTest, Job.on_bind, Job.on_get]
  cases hfile : m.isFile (fileFor test) with
  | true => simp [hfile]
  | false => simp [hfile]

/-- The helper at work on a list, when it is asked. -/
def listAsked (testDirectory : Path) (perfLabel : String) (m : Machine) : Asking :=
  ⟨g.listCommand testDirectory perfLabel,
    ((note (g.executingList (listPath testDirectory perfLabel))).on m).2⟩

/-- All that is told of a list. -/
def listLines (testDirectory : Path) (perfLabel : String) (m : Machine) : List String :=
  g.executingList (listPath testDirectory perfLabel) ::
      (g.listAsked testDirectory perfLabel m).relayed ++
    [g.listVerdict (listPath testDirectory perfLabel)
      (g.listAsked testDirectory perfLabel m).succeeds]

theorem trimEnd_executingList (list : Path) :
    Text.trimEnd (g.executingList list) = g.executingList list :=
  Text.trimEnd_seen (t := "]") (c := ']') (by decide) (by decide) _

theorem trimEnd_listVerdict (list : Path) (ok : Bool) :
    Text.trimEnd (g.listVerdict list ok) = g.listVerdict list ok :=
  Text.trimEnd_seen (t := "]") (c := ']') (by decide) (by decide) _

theorem listVerdict_opens (list : Path) (ok : Bool) :
    Text.startsWith (g.listVerdict list ok) (outcomeWord ok) = true := by
  simp only [listVerdict, String.append_assoc]
  rw [← String.append_assoc, ← String.append_assoc]
  exact Text.startsWith_append (by cases ok <;> decide) _

theorem listLines_conclude (testDirectory : Path) (perfLabel : String) (m : Machine) :
    Concludes (g.listAsked testDirectory perfLabel m) (g.listAsked testDirectory perfLabel m).relayed
      (g.listLines testDirectory perfLabel m) := by
  refine .of_opens (g.listVerdict_opens _ _) fun text htext hprinted => ?_
  rw [(List.mem_cons.mp htext).resolve_right hprinted]
  unfold executingList
  rw [String.append_assoc, String.append_assoc, String.append_assoc]
  exact not_tellsOutcome (by decide) _

theorem fromList_tells (testDirectory : Path) (perfLabel : String) (m : Machine) :
    TellsOnly (g.listLines testDirectory perfLabel m) m
      ((g.fromList testDirectory perfLabel).on m) := by
  rw [fromList_eq]
  exact GraphTool.announced_tells (g.trimEnd_executingList _) (g.trimEnd_listVerdict _) _ m

/-- The names that are passed are those of all entries that end as graph files do. -/
theorem mem_filesIn {m : Machine} {d : Path} {name : String} : name ∈ filesIn m d ↔
    ∃ entries, m.list d = .ok entries ∧ name ∈ entries.map (·.1) ∧
      Text.endsWith name ".graph" = true := by
  unfold filesIn
  cases m.list d with
  | error fault => simp
  | ok entries => simp

/-- They are in byte order, each once. -/
theorem filesIn_sorted {m : Machine} (h : m.files.WellFormed) (d : Path) :
    (filesIn m d).Pairwise (· < ·) := by
  unfold filesIn
  cases hlist : m.list d with
  | error fault => exact .nil
  | ok entries =>
    obtain ⟨l, rfl⟩ := FileTree.list_ok hlist
    exact (FileTree.children_strict h l).filter _

end PerfGraphs

namespace CompilerPerf

variable (k : CompilerPerf)

def combiningLine : String := "[Combining dat files now]"

def creatingLine : String := "[Creating compiler performance graphs now]"

def combinedLine : String := "[Success combining compiler performance dat files]"

def uncombinedLine : String := "[Error combining compiler performance dat files]"

/-- What is told of timings that are merged, by what the helper printed where it ended well. -/
def combined : Option String → List String
  | some output => [Text.trimEnd output, combinedLine]
  | none => [uncombinedLine]

def tellCombined : Option String → Job Unit
  | some output => do
    note output
    note combinedLine
  | none => note uncombinedLine

/-- The merging of the timings. -/
def combining (context : Context) : Job Unit := do
  let seconds := (← get).uptime - k.started
  note combiningLine
  tellCombined (← attempt (k.combineCommand context seconds).capture)

def verdict (list : Path) (ok : Bool) : String :=
  "[" ++ (if ok then "Success" else "Error") ++ " generating compiler performance graphs from " ++
    list.text ++ " in " ++ k.htmlDirectory.text ++ "]"

theorem report_eq (context : Context) (tool : GraphTool) (testDirectory : Path) :
    k.report context tool testDirectory = (do
      k.combining context
      note creatingLine
      GraphTool.reported (k.graphCommand tool testDirectory)
        (k.verdict (testDirectory / "COMPGRAPHFILES"))) := by
  simp only [report, combining, bind_assoc]
  refine bind_congr fun m => bind_congr fun _ => bind_congr fun output => ?_
  cases output with
  | some output =>
    simp only [tellCombined, bind_assoc]
    rfl
  | none => rfl

/-- The helper that merges the timings, when it is asked. -/
def combiningAsked (context : Context) (m : Machine) : Asking :=
  ⟨k.combineCommand context (m.uptime - k.started), ((note combiningLine).on m).2⟩

theorem tellCombined_tells (printed : Option String) (m : Machine) :
    TellsOnly (combined printed) m ((tellCombined printed).on m) := by
  have hE : ∀ (file : Path) (fault : Fault), ¬False := fun _ _ => id
  cases printed with
  | some output =>
    exact (Tells.note output m hE).bind hE fun _ m' _ => Tells.line (by decide) m' hE
  | none => exact Tells.line (by decide) m hE

theorem combining_tells (context : Context) (m : Machine) :
    TellsOnly (combiningLine :: combined (Command.printed (k.combiningAsked context m).answer)) m
      ((k.combining context).on m) := by
  have hE : ∀ (file : Path) (fault : Fault), ¬False := fun _ _ => id
  rw [combining, Job.on_bind, Job.on_get]
  refine (Tells.line (by decide) m hE).bind hE fun _ m₁ hon => ?_
  have hasked : k.combiningAsked context m =
      ⟨k.combineCommand context (m.uptime - k.started), m₁⟩ := by
    rw [combiningAsked, hon]
  have huntold :=
    (attempt_capture_untold (k.combineCommand context (m.uptime - k.started)) m₁).1
  rw [hasked, Job.on_bind, Job.on_lift]
  refine Tells.alike ?_ huntold
  rw [Command.attempt_capture_on]
  exact tellCombined_tells _ _

/-- The graph helper, when it is asked at the end of a session. -/
def graphAsked (context : Context) (tool : GraphTool) (testDirectory : Path) (m : Machine) : Asking :=
  ⟨k.graphCommand tool testDirectory, ((note creatingLine).on ((k.combining context).on m).2).2⟩

/-- All that a report tells. -/
def reportLines (context : Context) (tool : GraphTool) (testDirectory : Path) (m : Machine) :
    List String :=
  combiningLine :: combined (Command.printed (k.combiningAsked context m).answer) ++
    (creatingLine :: (k.graphAsked context tool testDirectory m).relayed ++
      [k.verdict (testDirectory / "COMPGRAPHFILES")
        (k.graphAsked context tool testDirectory m).succeeds])

theorem trimEnd_verdict (list : Path) (ok : Bool) :
    Text.trimEnd (k.verdict list ok) = k.verdict list ok :=
  Text.trimEnd_seen (t := "]") (c := ']') (by decide) (by decide) _

theorem verdict_opens (list : Path) (ok : Bool) :
    Text.startsWith (k.verdict list ok) (outcomeWord ok) = true := by
  simp only [verdict, String.append_assoc]
  rw [← String.append_assoc, ← String.append_assoc]
  exact Text.startsWith_append (by cases ok <;> decide) _

/-- All that tools print in a report. -/
def reportPrinted (context : Context) (tool : GraphTool) (testDirectory : Path) (m : Machine) :
    List String :=
  (Command.printed (k.combiningAsked context m).answer).toList.map Text.trimEnd ++
    (k.graphAsked context tool testDirectory m).relayed

theorem reportLines_conclude (context : Context) (tool : GraphTool) (testDirectory : Path)
    (m : Machine) : Concludes (k.graphAsked context tool testDirectory m)
      (k.reportPrinted context tool testDirectory m) (k.reportLines context tool testDirectory m) := by
  have hown : ∀ text ∈ [combiningLine, combinedLine, uncombinedLine, creatingLine],
      ¬TellsOutcome text := by decide
  have hcombined : ∀ printed : Option String, ∀ text ∈ combined printed,
      text ∈ printed.toList.map Text.trimEnd ∨ text ∈ [combinedLine, uncombinedLine] := by
    intro printed text htext
    cases printed with
    | none => exact .inr (by simp [List.mem_singleton.mp htext])
    | some output => exact (List.mem_pair.mp htext).imp (fun h => by simp [h]) fun h => by simp [h]
  rw [reportLines, ← List.append_assoc]
  refine .of_opens (k.verdict_opens _ _) fun text htext hprinted => ?_
  simp only [reportPrinted, List.mem_append, not_or] at hprinted
  simp only [List.cons_append, List.mem_cons, List.mem_append] at htext
  rcases htext with rfl | htext | rfl | hrelayed
  · exact hown _ (by simp)
  · rcases (hcombined _ _ htext).resolve_left hprinted.1 with h
    exact hown _ (by rcases List.mem_pair.mp h with rfl | rfl <;> simp)
  · exact hown _ (by simp)
  · exact absurd hrelayed hprinted.2

theorem report_tells (context : Context) (tool : GraphTool) (testDirectory : Path) (m : Machine) :
    TellsOnly (k.reportLines context tool testDirectory m) m
      ((k.report context tool testDirectory).on m) := by
  rw [report_eq, reportLines, graphAsked]
  refine (k.combining_tells context m).bind (fun _ _ => id) fun _ m₁ hon => ?_
  rw [hon]
  exact GraphTool.announced_tells (by decide) (k.trimEnd_verdict _) _ m₁

/-- The error where a machine cannot clear the timings away. -/
def Stuck (m : Machine) (e : Error) : Prop :=
  ∃ fault, m.isDirectory k.tempDatDirectory = true ∧
    m.files.removeDirectories m.directory k.tempDatDirectory = .error fault ∧ e = .system fault

theorem finish_tells (context : Context) (tool : GraphTool) (testDirectory : Path) (m : Machine) :
    Tells (k.Stuck ((k.report context tool testDirectory).on m).2)
      (k.reportLines context tool testDirectory m) m ((k.finish context tool testDirectory).on m) := by
  have hE : ∀ m₁ file fault, ¬k.Stuck m₁ (.logWrite file fault) := by
    rintro m₁ file fault ⟨fault', -, -, ⟨⟩⟩
  unfold finish
  rw [← List.append_nil (k.reportLines ..)]
  refine (k.report_tells context tool testDirectory m).bind (hE _) fun _ m₁ hreport => ?_
  rw [hreport, Job.on_bind, Job.on_get]
  by_cases hthere : m₁.isDirectory k.tempDatDirectory = true
  · simp only [hthere, ↓reduceIte]
    rw [removeDirectories, edit, editOr_on]
    cases hremove : m₁.files.removeDirectories m₁.directory k.tempDatDirectory with
    | error fault =>
      refine ⟨⟨[], List.prefix_rfl, rfl⟩, fun _ => rfl, ?_⟩
      rintro _ ⟨rfl⟩
      exact .inr ⟨fault, hthere, hremove, rfl⟩
    | ok files => exact .silent rfl
  · simp only [hthere]
    exact .silent rfl

end CompilerPerf

end Regression
