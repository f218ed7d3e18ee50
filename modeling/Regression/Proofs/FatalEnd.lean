import Regression.Proofs.ExitCodes
import Regression.Proofs.Raising
import Regression.Proofs.Vetting

namespace Regression

theorem Summary.render_opening (summary : Summary) (date : String) :
    ∃ rest, summary.render date = "[Test Summary - " ++ rest := by
  unfold Summary.render
  simp only [String.append_assoc]
  exact ⟨_, rfl⟩

theorem Fatal.line_error (cause : Fatal) : Text.startsWith cause.line "[Error" = true := by
  simp [Fatal.line, Text.startsWith, List.isPrefixOf]

namespace Session

variable {s : Session} {m m' m₁ m₂ m₃ : Machine} {scratch : Scratch} {targets : List Path}
  {sorted : List Target} {cause : Fatal} {result : Except Error Outcome} {text : String}

/-- The reports of the targets that name nothing. -/
def complaints (s : Session) (m : Machine) (targets : List Path) : List String :=
  (targets.filter fun target => (Target.classify m target s.cwd).isNone).map complaint

/-- What a session tells its log at its end is of no error. -/
theorem Closes.not_error (h : s.Closes text) :
    Text.startsWith (Text.trimEnd text) "[Error" = false := by
  cases h with
  | date stamp => exact Plain.startsWith (.append (.append (by decide) _) _)
  | place => exact Plain.startsWith (.append (.append (by decide) _) _)
  | skipped n => exact Plain.startsWith (.append (.append (by decide) _) _)
  | summary summary date =>
    obtain ⟨rest, hrest⟩ := summary.render_opening date
    rw [hrest]
    exact Plain.startsWith (.append (by decide) _)
  | blank => decide
  | cleaned => decide

theorem lastMessages_plain (m : Machine) :
    ∀ text ∈ s.lastMessages m, Text.startsWith text "[Error" = false := by
  have hcloses : ∀ {text}, s.Closes text → Text.startsWith text "[Error" = false := by
    intro text h
    rw [← Text.startsWith_trimEnd Text.error_unblank]
    exact h.not_error
  intro text htext
  simp only [lastMessages, List.mem_cons, List.not_mem_nil, or_false] at htext
  rcases htext with rfl | rfl | rfl
  · exact hcloses (.date _)
  · exact hcloses .place
  · exact hcloses .blank

theorem concluding_plain (scratch : Scratch) (notes : List String) :
    Concluding s scratch fun m => ∃ told, m.notes = told ++ notes ∧
      ∀ text ∈ told, Text.startsWith text "[Error" = false := by
  refine ⟨⟨fun _ _ h => h, ?_, fun _ _ h => h, fun _ _ _ _ _ _ h => h, fun _ _ _ _ _ h => h,
    fun _ _ _ _ _ h => h, fun _ _ _ _ h => h⟩, closeScratch_stays (fun _ _ _ _ h => h) scratch,
    fun _ => (Setup.bearing_plain notes).toStarting.junitReport trivial⟩
  rintro m text ht ⟨told, htold, hplain⟩
  obtain ⟨files, log, console, hnote⟩ := note_records m text
  refine ⟨Text.trimEnd text :: told, ?_, List.forall_mem_cons.mpr ⟨ht.not_error, hplain⟩⟩
  rw [hnote, List.cons_append, ← htold]

theorem report_clean {summary : Option Summary} (hclean : s.settings.cleanOnly = true)
    (h : s.report.on m = (.ok summary, m')) : summary = none := by
  rw [report_clean_eq hclean] at h
  obtain ⟨_, _, -, h⟩ := Job.bind_ok h
  obtain ⟨_, _, -, h⟩ := Job.bind_ok h
  cases h
  rfl

/-- What becomes of a session that began its log on `m₁` and whose tests, of `targets`, a fatal error
ended on `m₂`. Till then `asked` are the tools that it has asked, and `before` is what it has told its
log besides the targets that name nothing. -/
structure Breaks (s : Session) (targets : List Path) (m₁ m₂ : Machine) (cause : Fatal)
    (asked : List Asking) (before : List String) (result : Except Error Outcome) (m' : Machine) :
    Prop where
  goes : Goes m₁ asked m₂
  /-- The log has not been told of the error by then, but by a tool that printed the same. -/
  heard : before.count cause.line ≤ (asked.flatMap Asking.passedOn).count cause.line
  /-- Now it is told of it, and of no error after that. -/
  told : ∃ after, m'.notes.reverse = m₁.notes.reverse ++
      (s.complaints m₁ targets ++ before ++ cause.line :: after) ∧
    ∀ text ∈ after, Text.startsWith text "[Error" = false
  /-- No tool is asked for but the one that turns the published log into a report. -/
  ended : ∃ later, m'.commands = later ++ m₂.commands ∧
    ∀ c ∈ later, s.settings.junitXml ∧ c = s.junitCommand
  cleaned : ∀ r, result = .ok r → s.settings.cleanOnly = true → r.exitCode = .success
  /-- Where nothing but the session touches the files that the log and its summary are kept in, the
  published log holds what it was told, its summary at the end, and the session fails. -/
  failed : ∀ r, result = .ok r → s.settings.cleanOnly = false →
    m₁.files.Apart m₁.directory s.files.names → m₁.tools.Sound →
    ∀ new, m'.changes = new ++ m₁.changes →
      (∀ ch ∈ new, ch.Spares s.files.names m₁.directory) →
      r.exitCode = .failures ∧ ∃ later summary,
        (∀ text ∈ later, Text.startsWith text "[Error" = false) ∧ r.summary = some summary ∧
        m'.files.Holds m'.directory r.logFile
          (Text.encode (written (s.complaints m₁ targets ++ before ++ cause.line :: later) ++
            summary.render m₁.clock.runStamp ++ "\n"))

/-- Where there is something to test, its targets are not all lost. -/
theorem sorted_of_named (hsort : (s.sortTargets targets).on m₁ = (.ok sorted, m₂))
    (hnamed : targets = [] ∨ ∃ target ∈ targets, (Target.classify m₁ target s.cwd).isSome) :
    (sorted.isEmpty && !targets.isEmpty) = false := by
  refine Bool.eq_false_iff.mpr fun hnone => ?_
  obtain ⟨hne, hall⟩ := (sortTargets_ok hsort).isEmpty_iff.mp hnone
  obtain rfl | ⟨target, hmem, hvalid⟩ := hnamed
  · exact hne rfl
  · rw [hall target hmem] at hvalid
    cases hvalid

/-- Tests that a fatal error has ended: the log is told of it, and its end follows. -/
theorem test_broken (hsort : (s.sortTargets targets).on m₁ = (.ok sorted, m₂))
    (hsome : (sorted.isEmpty && !targets.isEmpty) = false)
    (hwork : (s.work scratch sorted).on m₂ = (.error (.fatal cause), m₃)) :
    (s.test scratch targets).on m₁ = Job.on (do
      note cause.line
      return Ending.tested (← s.report)) m₃ := by
  have houtcome : (outcome (s.work scratch sorted)).on m₂ = (.ok (.error (.fatal cause)), m₃) := by
    rw [Job.on_outcome, hwork]
  rw [test_eq, Job.on_bind_ok hsort, testSorted_eq, hsome, if_neg Bool.false_ne_true,
    Job.on_bind_ok houtcome]
  rfl

/-- What holds once the log has been told of the error, and of all that a session does at its end,
holds when it has ended. -/
theorem broken_leaves {P : Machine → Prop} (h : Concluding s scratch P)
    (hbegins : s.Begins m scratch m₁) (htest : (s.test scratch targets).on m₁ = Job.on (do
      note cause.line
      return Ending.tested (← s.report)) m₃)
    (hnoted : P ((note cause.line).on m₃).2) : P ((s.run targets).on m).2 := by
  refine h.run hbegins ?_
  rw [htest, Job.on_bind]
  cases hnote : (note cause.line).on m₃ with
  | mk answer m₄ =>
    rw [hnote] at hnoted
    cases answer with
    | error e => exact hnoted
    | ok u => exact (h.report.after fun _ => Job.Keeps.given _) m₄ hnoted |>.1

/-- The log is told of the error, and of nothing else as an error after it. -/
theorem broken_told (hbegins : s.Begins m scratch m₁)
    (htest : (s.test scratch targets).on m₁ = Job.on (do
      note cause.line
      return Ending.tested (← s.report)) m₃) :
    ∃ after, ((s.run targets).on m).2.notes = after ++ cause.line :: m₃.notes ∧
      ∀ text ∈ after, Text.startsWith text "[Error" = false := by
  refine broken_leaves (concluding_plain scratch _) hbegins htest ⟨[], ?_, nofun⟩
  rw [Balanced.notes_note, cause.trimEnd_line]
  rfl

/-- What a session has asked and told its log when a fatal error ends its tests. -/
theorem work_broken (hsort : (s.sortTargets targets).on m₁ = (.ok sorted, m₂))
    (hwork : (s.work scratch sorted).on m₂ = (.error (.fatal cause), m₃)) :
    ∃ asked before, Goes m₁ asked m₃ ∧
      before.count cause.line ≤ (asked.flatMap Asking.passedOn).count cause.line ∧
      m₃.notes.reverse = m₁.notes.reverse ++ (s.complaints m₁ targets ++ before) := by
  have hbreaking : Breaking m₂ cause m₃ :=
    (execute_echoing scratch _ _).error (Echoes.begun m₂) hwork
  obtain ⟨asked, before, hgoes, hnotes, hcount⟩ := hbreaking.2.account
  have hidle : Goes m₁ [] m₂ := ((Goes.idle scratch.path m₁).sortTargets targets).leaves .begun hsort
  refine ⟨asked, before, hidle.trans hgoes, hcount _ hbreaking.1.opens, ?_⟩
  rw [hnotes, List.reverse_append, List.reverse_reverse, (sortTargets_ok hsort).told,
    List.append_assoc]
  rfl

/-- Where a fatal error breaks off the work on the targets, the log is told of it, once unless a tool
prints the same, and a session that answers then has failed, unless it only cleans. -/
theorem run_fatal (hbegins : s.Begins m scratch m₁)
    (hsort : (s.sortTargets targets).on m₁ = (.ok sorted, m₂))
    (hnamed : targets = [] ∨ ∃ target ∈ targets, (Target.classify m₁ target s.cwd).isSome)
    (hwork : (s.work scratch sorted).on m₂ = (.error (.fatal cause), m₃))
    (hrun : (s.run targets).on m = (result, m')) (hnames : s.files.Resolved) :
    ∃ asked before, s.Breaks targets m₁ m₃ cause asked before result m' := by
  obtain ⟨asked, before, hgoes, hheard, hbefore⟩ := work_broken hsort hwork
  have htest := test_broken hsort (sorted_of_named hsort hnamed) hwork
  have hreported : ∀ {r}, result = .ok r → ∃ told summary m₄,
      (note cause.line).on m₃ = (.ok (), told) ∧ s.report.on told = (.ok summary, m₄) ∧
      (s.finish scratch (.tested summary)).on m₄ = (.ok r, m') := by
    rintro r rfl
    obtain ⟨_, _, ending, m₄, hbegins', htested, hfinish⟩ := run_ok hrun
    obtain ⟨rfl, rfl⟩ := hbegins.unique hbegins'
    rw [htest] at htested
    obtain ⟨_, told, hnote, htested⟩ := Job.bind_ok htested
    obtain ⟨summary, m₅, hreport, htested⟩ := Job.bind_ok htested
    cases htested
    exact ⟨told, summary, m₄, hnote, hreport, hfinish⟩
  refine ⟨asked, before, hgoes, hheard, ?_, ?_, ?_, ?_⟩
  · obtain ⟨after, hafter, hplain⟩ := broken_told hbegins htest
    refine ⟨after.reverse, ?_, fun text ht => hplain text (List.mem_reverse.mp ht)⟩
    rw [hrun] at hafter
    rw [hafter, List.reverse_append, List.reverse_cons, hbefore]
    simp only [List.append_assoc, List.singleton_append]
  · have hconverting : Concluding s scratch
        (Onward (fun c => s.settings.junitXml = true ∧ c = s.junitCommand) m₃) :=
      Onward.concluding (fun h => ⟨h, rfl⟩) scratch
    have hlast := broken_leaves hconverting hbegins htest (Onward.refl.note _)
    rw [hrun] at hlast
    exact hlast.commands
  · intro r hr hclean
    obtain ⟨told, summary, m₄, -, hreport, hfinish⟩ := hreported hr
    obtain ⟨_, -, hanswer⟩ := finish_tested_ok hfinish
    rw [hanswer, report_clean hclean hreport]
    rfl
  · intro r hr hclean hapart htools new hnew hspares
    obtain ⟨told, summary, m₄, hnote, hreport, hfinish⟩ := hreported hr
    have hlasting : Lasting scratch.path (fun _ => True) (Since s.files m₁) :=
      Since.lasting scratch.path _ htools
    have hsorted : Since s.files m₁ m₂ :=
      (hlasting.sortTargets targets).leaves (.refl (hbegins.tended hapart)) hsort
    have hworked : Since s.files m₁ m₃ :=
      (hlasting.execute (fun _ _ => trivial) _ _).leaves hsorted hwork
    have htold : Since s.files m₁ told := (hlasting.stays_note _).leaves hworked hnote
    obtain ⟨lines, summed, hlines, haccounts⟩ :=
      accounts_of_report htold hreport hfinish hclean hnames hnew hspares
    -- All that was told up to the error is what the log accounts for before its last messages.
    have hnotes := Balanced.notes_note m₃ cause.line
    rw [hnote, cause.trimEnd_line] at hnotes
    obtain rfl : lines = s.complaints m₁ targets ++ before ++ [cause.line] := by
      rw [hnotes, ← List.reverse_inj, List.reverse_cons, hbefore, List.reverse_append,
        List.reverse_reverse, List.append_assoc] at hlines
      exact (List.append_cancel_left hlines).symm
    rw [List.append_assoc _ [cause.line], List.singleton_append] at haccounts
    refine ⟨?_, s.lastMessages told, summed, lastMessages_plain told, haccounts.answered,
      haccounts.logFile⟩
    rw [haccounts.exitCode, if_pos]
    exact error_written (List.mem_append_right _ List.mem_cons_self) cause.line_error

/-- Where no tool printed the same and no report of a target reads so, the error is told of once. -/
theorem Breaks.told_once {asked : List Asking} {before : List String}
    (h : s.Breaks targets m₁ m₂ cause asked before result m')
    (htargets : cause.line ∉ s.complaints m₁ targets)
    (htools : cause.line ∉ asked.flatMap Asking.passedOn) :
    ∃ told, m'.notes.reverse = m₁.notes.reverse ++ told ∧ told.count cause.line = 1 := by
  obtain ⟨after, hnotes, hplain⟩ := h.told
  have hheard := h.heard
  rw [List.count_eq_zero.mpr htools, Nat.le_zero] at hheard
  have hafter : cause.line ∉ after := fun hmem =>
    Bool.false_ne_true ((hplain _ hmem).symm.trans cause.line_error)
  refine ⟨_, hnotes, ?_⟩
  rw [List.count_append, List.count_append, List.count_cons_self, List.count_eq_zero.mpr htargets,
    hheard, List.count_eq_zero.mpr hafter]

/-- A fatal error ends the tests of a session, and its log is told of it a number of times. -/
def Broken (s : Session) (targets : List Path) (m : Machine) (cause : Fatal) (times : Nat) : Prop :=
  ∃ scratch m₁ sorted m₂ m₃, s.Begins m scratch m₁ ∧
    (s.sortTargets targets).on m₁ = (.ok sorted, m₂) ∧
    (s.work scratch sorted).on m₂ = (.error (.fatal cause), m₃) ∧
    ((s.run targets).on m).2.notes.count cause.line = times

/-- It is enough to look at what has been told when the error ends the tests. -/
theorem broken_of_work {times : Nat} (hscratch : s.openScratch.on m = (.ok scratch, m₁))
    (hlog : (s.openLog.on m₁).1 = .ok ())
    (hsort : ((s.sortTargets targets).on (s.openLog.on m₁).2).1 = .ok sorted)
    (hsome : (sorted.isEmpty && !targets.isEmpty) = false)
    (hwork : ((s.work scratch sorted).on ((s.sortTargets targets).on (s.openLog.on m₁).2).2).1 =
        .error (.fatal cause) ∧
      ((s.work scratch sorted).on ((s.sortTargets targets).on (s.openLog.on m₁).2).2).2.notes.count
        cause.line = times) : s.Broken targets m cause (times + 1) := by
  have hbegins : s.Begins m scratch (s.openLog.on m₁).2 := ⟨m₁, hscratch, Job.on_of_result hlog⟩
  have hfails := Job.on_of_result hwork.1
  have htest := test_broken (Job.on_of_result hsort) hsome hfails
  refine ⟨scratch, _, sorted, _, _, hbegins, Job.on_of_result hsort, hfails, ?_⟩
  obtain ⟨after, hafter, hplain⟩ := broken_told hbegins htest
  have hnone : cause.line ∉ after := fun hmem =>
    Bool.false_ne_true ((hplain _ hmem).symm.trans cause.line_error)
  rw [hafter, List.count_append, List.count_eq_zero.mpr hnone, Nat.zero_add, List.count_cons_self,
    hwork.2]

/-- The session answers that nothing has failed. -/
def Succeeds (s : Session) (targets : List Path) (m : Machine) : Prop :=
  ∃ r m', (s.run targets).on m = (.ok r, m') ∧ r.exitCode = .success

theorem succeeds_of_code
    (h : ((s.run targets).on m).1.toOption.map (·.exitCode) = some .success) :
    s.Succeeds targets m := by
  cases hrun : (s.run targets).on m with
  | mk result m' =>
    rw [hrun] at h
    cases result with
    | error e => cases h
    | ok r => exact ⟨r, m', hrun, Option.some.inj h⟩

end Session

namespace Trial

theorem run_fatal_trial : ∃ r m' asked before,
    (session.run [⟨"/a"⟩]).on (machine []) = (.ok r, m') ∧
      session.Breaks [⟨"/a"⟩] (started []) (failed []) .noValgrind asked before (.ok r) m' ∧
      r.exitCode = .failures := by
  obtain ⟨r, m', hrun, hspares⟩ := answers
  have hsort : (session.sortTargets [⟨"/a"⟩]).on (started []) = (.ok [.file ⟨"/a"⟩], started []) :=
    rfl
  obtain ⟨asked, before, hbreaks⟩ := Session.run_fatal begins hsort
    (.inr ⟨⟨"/a"⟩, List.mem_singleton.mpr rfl, rfl⟩) work_failed hrun resolved
  exact ⟨r, m', asked, before, hrun, hbreaks, (hbreaks.failed r rfl rfl apart (tools_sound []) _
    (List.append_nil _).symm hspares).1⟩

/-- The same session where it only cleans. -/
def cleaning : Session := { session with settings := { valgrind := true, cleanOnly := true } }

/-- A session whose compiler is looked for under a name that ends as the report of a target does. -/
def misnamed : Session :=
  { session with settings := { compiler := some ⟨"/c is not a valid file or directory"⟩ } }

/-- A session whose shared runner is missing. -/
def unrunnable : Session :=
  { session with
    settings := { compiler := some ⟨"/c"⟩ }
    files := LogFiles.resolve ⟨"/"⟩ "u" "p" 1 (some ⟨"/w"⟩) ⟨"/"⟩ }

/-- A machine whose cleaner prints what the session is to tell of its runner. -/
def foretelling : Machine :=
  { machine [(["c"], .file 1 .newDirectory [])] with
    tools := fun _ c _ files =>
      .ok { written :=
              [(.output, if c.tool = "sub_clean" then
                  Text.encode (Fatal.noRunner ⟨"/test/sub_test"⟩ none).line else [])]
            status := .exited 0, files } }

/-- A session that only cleans succeeds although a fatal error has ended it, and so does one whose log
is a device. A log may have been told of the same by the report of a target or by a tool before. -/
theorem fatal_missed :
    (cleaning.Broken [⟨"/a"⟩] (machine []) .noValgrind 1 ∧
      cleaning.Succeeds [⟨"/a"⟩] (machine [])) ∧
    (session.Broken [⟨"/a"⟩] (machine [(["w"], .device none)]) .noValgrind 1 ∧
      session.Succeeds [⟨"/a"⟩] (machine [(["w"], .device none)])) ∧
    misnamed.Broken [⟨"Cannot find or execute compiler: /c"⟩, ⟨"/a"⟩] (machine [])
      (.noCompiler ⟨"/c is not a valid file or directory"⟩) 2 ∧
    unrunnable.Broken [⟨"/a"⟩] foretelling (.noRunner ⟨"/test/sub_test"⟩ none) 2 := by
  have hsort : ((misnamed.sortTargets [⟨"Cannot find or execute compiler: /c"⟩, ⟨"/a"⟩]).on
      (misnamed.openLog.on (machine [])).2).1 = .ok [.file ⟨"/a"⟩] := by decide +kernel
  refine ⟨⟨?_, ?_⟩, ⟨?_, ?_⟩, ?_, ?_⟩
  · exact Session.broken_of_work rfl (by decide +kernel) rfl rfl (by decide +kernel)
  · exact Session.succeeds_of_code (by decide +kernel)
  · exact Session.broken_of_work rfl (by decide +kernel) rfl rfl (by decide +kernel)
  · exact Session.succeeds_of_code (by decide +kernel)
  · exact Session.broken_of_work rfl (by decide +kernel) hsort rfl (by decide +kernel)
  · exact Session.broken_of_work rfl (by decide +kernel) rfl rfl (by decide +kernel)

end Trial

end Regression
