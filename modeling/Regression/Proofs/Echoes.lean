import Regression.Proofs.Attempts
import Regression.Proofs.GraphWalk
import Regression.Proofs.Provision

namespace Regression

/-- The tools of which the log is told line by line. -/
def followedTools : List String := ["sub_test", "genGraphs", "make"]

/-- The tools whose whole answer is one message. -/
def quotedTools : List String :=
  ["sub_clean", "computePerfStats", "combineCompPerfData", "printchplenv"]

/-- The messages by which a session passes on to its log what a tool prints. Of the tools that are
asked about the machine, and of those that decide a condition, nothing is passed on. -/
def Asking.passedOn (a : Asking) : List String :=
  if a.command.tool ∈ followedTools then a.relayed
  else if a.command.tool ∈ quotedTools then ((Command.printed a.answer).map Text.trimEnd).toList
  else []

namespace Fatal

/-- The line by which a log tells of an error that ended the tests. -/
def line (cause : Fatal) : String := "[Error: " ++ cause.message ++ "]"

/-- How the lines begin that tell of what a session itself raises. -/
def heads : List String := ["[Error: C", "[Error: valgrind", "[Error: Failed to g"]

def Opens (line : String) : Prop := ∃ head ∈ heads, Text.startsWith line head = true

/-- An error with a message that a session has made. -/
def IsOwn : Fatal → Prop
  | raised _ => False
  | _ => True

theorem trimEnd_line (cause : Fatal) : Text.trimEnd cause.line = cause.line :=
  Text.trimEnd_seen (t := "]") (c := ']') (by decide) (by decide) _

theorem opens_of_message {cause : Fatal} (opening rest : String)
    (hmessage : cause.message = opening ++ rest)
    (hopens : ∃ head ∈ heads, head.toList <+: "[Error: ".toList ++ opening.toList) :
    Opens cause.line := by
  obtain ⟨head, hhead, hopens⟩ := hopens
  refine ⟨head, hhead, ?_⟩
  rw [Text.startsWith, List.isPrefixOf_iff_prefix, line, hmessage]
  simp only [String.toList_append, List.append_assoc]
  rw [← List.append_assoc]
  exact hopens.trans (List.prefix_append _ _)

theorem IsOwn.opens {cause : Fatal} (h : cause.IsOwn) : Opens cause.line := by
  have hwhole : ∀ text : String, text = text ++ "" := fun text => String.append_empty.symm
  cases cause with
  | noRunner runner detail =>
    cases detail with
    | none => exact opens_of_message "Cannot find or execute runner: " _ rfl (by decide)
    | some detail =>
      refine opens_of_message "Cannot find or execute runner: "
        (runner.text ++ (" (" ++ (detail ++ ")"))) ?_ (by decide)
      change "Cannot find or execute runner: " ++ runner.text ++ " (" ++ detail ++ ")" = _
      rw [String.append_assoc, String.append_assoc, String.append_assoc]
  | noCompiler compiler => exact opens_of_message "Cannot find or execute compiler: " _ rfl (by decide)
  | noScript role script =>
    refine opens_of_message "Cannot find or execute system-wide "
      (role.text ++ (": " ++ script.text)) ?_ (by decide)
    change "Cannot find or execute system-wide " ++ role.text ++ ": " ++ script.text = _
    rw [String.append_assoc, String.append_assoc]
  | noValgrind => exact opens_of_message _ "" (hwhole _) (by decide)
  | valgrindTasks => exact opens_of_message _ "" (hwhole _) (by decide)
  | valgrindMemory => exact opens_of_message _ "" (hwhole _) (by decide)
  | valgrindExpressions => exact opens_of_message _ "" (hwhole _) (by decide)
  | specTests home =>
    exact opens_of_message "Failed to generate Spec tests. Run 'make spectests' in "
      (home.text ++ " for more info") (String.append_assoc ..) (by decide)
  | raised message => exact h.elim

end Fatal

/-- A message that is told as no such line. -/
def Aloof (text : String) : Prop := ∀ line, Fatal.Opens line → Text.trimEnd text ≠ line

theorem aloof_blank : Aloof "" := by
  rintro _ ⟨head, hhead, hopens⟩ rfl
  have hnone : ∀ head ∈ Fatal.heads, Text.startsWith (Text.trimEnd "") head = false := by decide
  exact Bool.false_ne_true ((hnone head hhead).symm.trans hopens)

/-- A message that begins otherwise than all such lines, whatever follows. -/
def Unlike (text : String) : Prop :=
  ∀ head ∈ Fatal.heads, ¬head.toList <+: text.toList ∧ ¬text.toList <+: head.toList

namespace Unlike

variable {text : String}

instance : Decidable (Unlike text) := inferInstanceAs (Decidable (∀ head ∈ _, _))

theorem extend (h : Unlike text) {longer : String} (hlonger : text.toList <+: longer.toList) :
    Unlike longer := by
  intro head hhead
  obtain ⟨hopens, hwithin⟩ := h head hhead
  refine ⟨fun hmore => ?_, fun hmore => hwithin (hlonger.trans hmore)⟩
  exact (List.prefix_or_prefix_of_prefix hmore hlonger).elim hopens hwithin

theorem append (h : Unlike text) (more : String) : Unlike (text ++ more) := by
  apply h.extend
  rw [String.toList_append]
  exact List.prefix_append _ _

theorem aloof (h : Unlike text) : Aloof text := by
  rintro line ⟨head, hhead, hopens⟩
  refine Text.trimEnd_ne hopens (Bool.eq_false_iff.mpr fun htext => (h head hhead).1 ?_)
  rwa [Text.startsWith, List.isPrefixOf_iff_prefix] at htext

end Unlike

/-- What tells of no error is unlike the lines that tell of one. -/
theorem Plain.aloof {text : String} (h : Plain text) : Aloof text := by
  have herror : ∀ head ∈ Fatal.heads, "[Error".toList <+: head.toList := by decide
  refine Unlike.aloof fun head hhead => ⟨fun hopens => ?_, fun hwithin => ?_⟩
  · exact h.1 ((herror head hhead).trans hopens)
  · exact (List.prefix_or_prefix_of_prefix hwithin (herror head hhead)).elim h.2 h.1

namespace Goes

variable {m₁ m₂ m : Machine} {asked later : List Asking}

theorem changed (h : Goes m₁ asked m) (files : FileTree) :
    Goes m₁ asked { m with
      files, changes := { tool := none, before := m.files, after := files } :: m.changes } := by
  have hedited := h.edited fun _ _ => .ok files
  rwa [edit, editOr_on] at hedited

theorem trans (h : Goes m₁ asked m₂) (h' : Goes m₂ later m) : Goes m₁ (asked ++ later) m := by
  induction h' with
  | begun => rwa [List.append_nil]
  | shown text _ ih => exact ih.shown text
  | diagnosed text _ ih => exact ih.diagnosed text
  | noted text _ ih => exact ih.noted text
  | edited change _ ih => exact ih.edited change
  | started c _ ih =>
    rw [← List.append_assoc]
    exact ih.started c

/-- As long as no tool is asked for. -/
theorem idle (tmp : Path) (m₁ : Machine) : Lasting tmp (fun _ => False) (Goes m₁ []) :=
  ⟨⟨fun _ text h => h.shown text, fun _ text h => h.diagnosed text, fun _ _ hnone => hnone.elim⟩,
    fun _ text h => h.noted text, fun _ files _ h => h.changed files⟩

end Goes

/-- A later machine since whose log has been told of an error as ends the tests only by what a tool
printed. -/
structure Echoes (m₁ m : Machine) : Prop where
  of ::
  account : ∃ (asked : List Asking) (told : List String), Goes m₁ asked m ∧
    m.notes = told.reverse ++ m₁.notes ∧
    ∀ line, Fatal.Opens line → told.count line ≤ (asked.flatMap Asking.passedOn).count line

namespace Echoes

variable {m₁ m m' : Machine} {text : String} {c : Command}

theorem begun (m : Machine) : Echoes m m := ⟨[], [], .begun, rfl, fun _ _ => Nat.le_refl 0⟩

theorem shown (h : Echoes m₁ m) (text : String) : Echoes m₁ { m with console := text } := by
  obtain ⟨asked, told, hgoes, hrest⟩ := h.account
  exact ⟨asked, told, hgoes.shown text, hrest⟩

theorem diagnosed (h : Echoes m₁ m) (text : String) : Echoes m₁ { m with diagnostics := text } := by
  obtain ⟨asked, told, hgoes, hrest⟩ := h.account
  exact ⟨asked, told, hgoes.diagnosed text, hrest⟩

theorem edited (h : Echoes m₁ m) (files : FileTree) :
    Echoes m₁ { m with
      files, changes := { tool := none, before := m.files, after := files } :: m.changes } := by
  obtain ⟨asked, told, hgoes, hrest⟩ := h.account
  exact ⟨asked, told, hgoes.changed files, hrest⟩

theorem noted (h : Echoes m₁ m) (ht : Aloof text) :
    Echoes m₁ ((note text).on m).2 := by
  obtain ⟨asked, told, hgoes, hnotes, hcount⟩ := h.account
  refine ⟨asked, told ++ [Text.trimEnd text], hgoes.noted text, ?_, fun line hline => ?_⟩
  · rw [Balanced.notes_note, hnotes, List.reverse_append]
    rfl
  · have hnone : [Text.trimEnd text].count line = 0 :=
      List.count_eq_zero.mpr fun hmem => ht line hline (List.mem_singleton.mp hmem).symm
    rw [List.count_append, hnone]
    exact hcount line hline

/-- A tool is asked, and some of what it prints is passed on. -/
theorem asked (h : Echoes m₁ m) (c : Command) (told : List String)
    (hgoes : ∀ asked, Goes m₁ asked m → Goes m₁ (asked ++ [⟨c, m⟩]) m')
    (hnotes : m'.notes = told.reverse ++ m.notes)
    (hpassed : told.Sublist (Asking.mk c m).passedOn) : Echoes m₁ m' := by
  obtain ⟨asked, told₀, hgone, hnotes₀, hcount⟩ := h.account
  refine ⟨asked ++ [⟨c, m⟩], told₀ ++ told, hgoes asked hgone, ?_, fun line hline => ?_⟩
  · rw [hnotes, hnotes₀, List.reverse_append, List.append_assoc]
  · rw [List.count_append, List.flatMap_append, List.count_append, List.flatMap_singleton]
    exact Nat.add_le_add (hcount line hline) (hpassed.count_le line)

theorem start (h : Echoes m₁ m) (c : Command) : Echoes m₁ (c.start.on m).2 := by
  refine h.asked c [] (fun _ hgoes => hgoes.started c) ?_ (List.nil_sublist _)
  rw [Command.start_on]
  cases m.tools m.commands c m.directory m.files <;> rfl

/-- What a tool prints line by line. -/
theorem followed (h : Echoes m₁ m) (hc : c.tool ∈ followedTools) : Echoes m₁ (c.follow.on m).2 := by
  obtain ⟨told, htold, hnotes⟩ := (GraphTool.run_tells c m).1.told
  rw [GraphTool.run_left] at hnotes
  refine h.asked c told (fun _ hgoes => hgoes.followed c) hnotes ?_
  rw [Asking.passedOn, if_pos hc]
  exact htold.sublist

/-- What a tool answers, as one message. -/
theorem quoted (h : Echoes m₁ m) (hc : c.tool ∈ quotedTools)
    (hanswer : (attempt c.capture).on m = (some text, m')) : Echoes m₁ ((note text).on m').2 := by
  have hother : ∀ tool ∈ quotedTools, tool ∉ followedTools := by decide
  have hprinted : Command.printed (Asking.mk c m).answer = some text := by
    rw [Command.attempt_capture_on] at hanswer
    exact congrArg Prod.fst hanswer
  have hnotes : m'.notes = m.notes := by
    have huntold := (attempt_capture_untold c m).1
    rwa [hanswer] at huntold
  refine h.asked c [Text.trimEnd text] (fun _ hgoes => ?_) ?_ ?_
  · have hcaptured := hgoes.captured c
    rw [hanswer] at hcaptured
    exact hcaptured.noted text
  · rw [Balanced.notes_note, hnotes]
    rfl
  · rw [Asking.passedOn, if_neg (hother _ hc), if_pos hc, hprinted]
    exact List.Sublist.refl _

theorem bearing (m₁ : Machine) : Bearing Aloof (Echoes m₁) where
  console _ text h := h.shown text
  diagnostics _ text h := h.diagnosed text
  start _ c _ h := h.start c
  note _ _ ht h := h.noted ht
  edit _ files h := h.edited files

end Echoes

/-- A fatal error that a session raises itself, and of none like it the log has been told before but
by a tool. -/
def Breaking (m₁ : Machine) (cause : Fatal) (m : Machine) : Prop := cause.IsOwn ∧ Echoes m₁ m

/-- A job that tells the log of no error as ends the tests, but by what a tool prints. -/
abbrev Echoing {α : Type} (m₁ : Machine) (j : Job α) : Prop :=
  Job.Clears (Echoes m₁) (Breaking m₁) j fun _ => Echoes m₁

namespace Echoing

variable {m₁ : Machine} {text head : String} {c : Command}

theorem given {α : Type} (a : α) : Echoing m₁ (pure a) := Job.Clears.pure fun _ h => h

theorem look : Echoing m₁ MonadState.get := Job.Clears.get.mono fun _ _ h => h.1

theorem raise {cause : Fatal} {α : Type} {post : α → Machine → Prop} (h : cause.IsOwn) :
    Job.Clears (Echoes m₁) (Breaking m₁) (throw (.fatal cause) : Job α) post :=
  Job.Clears.throw fun _ hm => ⟨h, hm⟩

theorem blank : Echoing m₁ noteBlank := (Echoes.bearing m₁).tell aloof_blank

theorem plain (h : Plain text) : Echoing m₁ (note text) := (Echoes.bearing m₁).tell h.aloof

theorem remark (h : Plain head) (shown tail : String) : Echoing m₁ (note (head ++ shown ++ tail)) :=
  plain (.append (.append h shown) tail)

theorem unlike (h : Unlike text) : Echoing m₁ (note text) := (Echoes.bearing m₁).tell h.aloof

theorem effect {α : Type} {e : Effect α} (h : e.Stays (Echoes m₁)) : Echoing m₁ (liftM e) := .stays h

/-- A tool was followed, which fails as a tool does, or by the log. -/
def Followed (m₁ : Machine) (result : Except Error Int) (m : Machine) : Prop :=
  Echoes m₁ m ∧ ∀ e, result = .error e →
    (∃ shown code output, e = .command shown code output) ∨ ∃ file fault, e = .logWrite file fault

/-- What a tool prints line by line is told of. -/
theorem follow (hc : c.tool ∈ followedTools) :
    Job.Clears (Echoes m₁) (Breaking m₁) (outcome c.follow) (Followed m₁) := by
  refine ⟨fun {m result m'} hm hon => ?_, fun {m e m'} hm hon => ?_⟩
  · rw [Job.on_outcome] at hon
    obtain ⟨rfl, rfl⟩ := hon
    refine ⟨hm.followed hc, fun e he => ?_⟩
    have hfailure := (GraphTool.run_tells c m).1.failure
    rw [GraphTool.run_on] at hfailure
    cases hfollow : c.follow.on m with
    | mk result left =>
      rw [hfollow] at he hfailure
      obtain rfl : result = .error e := he
      cases e with
      | command shown code output => exact .inl ⟨shown, code, output, rfl⟩
      | _ => exact .inr ((hfailure _ rfl).resolve_right id)
  · rw [Job.on_outcome] at hon
    cases hon

theorem returned {result : Except Error Int} {α : Type} (a : α) :
    Job.Clears (Followed m₁ result) (Breaking m₁) (pure a : Job α) fun _ => Echoes m₁ :=
  Job.Clears.pure fun _ hm => hm.1

/-- What is no failure of the tool is raised again. -/
theorem unlogged {e : Error} {α : Type} {post : α → Machine → Prop}
    (hnot : ∀ shown code output, e = .command shown code output → False) :
    Job.Clears (Followed m₁ (.error e)) (Breaking m₁) (throw e : Job α) post := by
  refine Job.Clears.throw fun _ hm => ?_
  rcases hm.2 e rfl with ⟨shown, code, output, rfl⟩ | ⟨file, fault, rfl⟩
  · exact (hnot shown code output rfl).elim
  · trivial

/-- A tool is listened to, and what it answers may be told. -/
theorem ask (hc : c.tool ∈ quotedTools) :
    Job.Clears (Echoes m₁) (Breaking m₁) (liftM (attempt c.capture)) fun output m => Echoes m₁ m ∧
      ∀ text ∈ output, Echoes m₁ ((note text).on m).2 := by
  refine Job.Clears.lift fun m hm => ⟨((Echoes.bearing m₁).capture trivial m hm), fun text htext => ?_⟩
  exact hm.quoted hc (Prod.ext htext rfl)

theorem answer : Job.Clears (fun m => Echoes m₁ m ∧ ∀ shown ∈ some text,
    Echoes m₁ ((note shown).on m).2) (Breaking m₁) (note text) fun _ => Echoes m₁ := by
  refine ⟨fun hm hon => ?_, fun hm hon => ?_⟩
  · have htold := hm.2 text rfl
    rwa [hon] at htold
  · obtain ⟨file, fault, rfl⟩ := note_logWrite hon
    trivial

theorem answerless {post : Unit → Machine → Prop} {j : Job Unit}
    (h : Job.Clears (Echoes m₁) (Breaking m₁) j post) :
    Job.Clears (fun m => Echoes m₁ m ∧ ∀ shown ∈ none, Echoes m₁ ((note shown).on m).2)
      (Breaking m₁) j post :=
  h.before fun _ hm => hm.1

section Running

theorem clean (c : Context) (d : Path) (test : Option String) : Echoing m₁ (Runner.clean c d test) := by
  have hcleaner : (Runner.cleanCommand c d test).tool ∈ quotedTools := by
    rw [Command.tool_join (s := Runner.cleanerName) rfl (by decide) (by decide)]
    decide
  have hend : ∀ {tell : Option String → Job Unit}, (∀ output, tell (some output) = note output) →
      tell none = note "[Error: sub_clean error]" →
      Echoing m₁ (do tell (← attempt (Runner.cleanCommand c d test).capture)) := by
    intro tell hsome hnone
    refine (ask hcleaner).bind fun output => ?_
    cases output with
    | some output => rw [hsome]; exact answer
    | none => rw [hnone]; exact answerless (unlike (by decide))
  unfold Runner.clean
  split
  · refine look.bind fun m => ?_
    refine (remark (.append (.append (.append (.append (by decide) _) _) _) _) _ _).bind fun _ => ?_
    exact hend (fun _ => rfl) rfl
  · exact hend (fun _ => rfl) rfl

/-- The name by which each tool of the tests is known. -/
theorem runner_followed (c : Context) (m : Machine) (d : Path) (test : Option String) :
    (Runner.command c (Runner.resolve m c d) d test).tool ∈ followedTools := by
  rw [(Phases.runner_worksIn (Environment.overlaid_setAll _ []) m).tool]
  decide

theorem launch (c : Context) (m : Machine) (d : Path) (test : Option String) :
    Echoing m₁ (Runner.launch c (Runner.resolve m c d) d test) := by
  unfold Runner.launch
  refine look.bind fun _ => ?_
  refine (remark (.append (.append (by decide) _) _) _ _).bind fun _ => ?_
  refine (follow (runner_followed c m d test)).bind fun result => ?_
  split
  · exact returned _
  · exact Job.Clears.throw fun _ hm => ⟨trivial, hm.1⟩
  · next hnot => exact unlogged hnot

theorem invoke (c : Context) (progress : Bool) (d : Path) (file : Option Path) :
    Echoing m₁ (Runner.invoke c progress d file) := by
  unfold Runner.invoke
  refine blank.bind fun _ => ?_
  cases file with
  | none =>
    refine look.bind fun m => look.bind fun _ => ?_
    exact Job.Clears.whether (raise trivial) (launch c m d none)
  | some f =>
    refine (remark (by decide) _ _).bind fun _ => ?_
    refine look.bind fun m => look.bind fun _ => ?_
    refine Job.Clears.whether (raise trivial) ?_
    exact Job.Clears.whether (effect ((Echoes.bearing m₁).complain _)) (launch c m d _)

end Running

end Echoing

end Regression
