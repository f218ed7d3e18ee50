import Regression.Proofs.Course
import Regression.Proofs.Publishing
import Regression.Proofs.Reporting
import Regression.Proofs.Tally
import Regression.Proofs.Upkeep

namespace Regression

namespace Summary

/-- A log has failures when one of its lines begins as an error does. -/
theorem hasFailures_ofLog (marker : SuccessMarker) (log : String) :
    (ofLog marker log).hasFailures =
      (Text.lines log).any fun line => Text.startsWith line "[Error" := by
  have herror : ∀ line, Category.of marker line = some .error ↔
      Text.startsWith line "[Error" = true := fun line => Category.of_eq_some
  rw [hasFailures, ofLog_eq, Bool.eq_iff_iff, decide_eq_true_iff, List.any_eq_true]
  simp [tally, linesOf, List.length_pos_iff_exists_mem, herror]

end Summary

/-- A message that begins as an error does begins a line of the log. -/
theorem error_written {messages : List String} {message : String} (hmem : message ∈ messages)
    (h : Text.startsWith message "[Error" = true) :
    ((Text.lines (written messages)).any fun line => Text.startsWith line "[Error") = true := by
  obtain ⟨before, after, rfl⟩ := List.append_of_mem hmem
  have hwritten : written (message :: after) = message ++ ("\n" ++ written after) := by
    simp [written, String.join_cons, String.append_assoc]
  have hstart : Text.startsWith (message ++ ("\n" ++ written after)) "[Error" = true := by
    rw [Text.startsWith, List.isPrefixOf_iff_prefix] at h ⊢
    rw [String.toList_append]
    exact h.trans (List.prefix_append _ _)
  obtain ⟨l, ls, hlines, hl⟩ := Text.lines_opening (by decide) (by decide) (by decide) hstart
  rw [written_append, Text.lines_append (Text.isLines_written before), hwritten, hlines]
  simp [hl]

/-- What the steps after the log is closed make of a machine: as long as every change has spared the
names, they lead where they led. -/
structure Left (names : List Path) (m₁ m : Machine) : Prop where
  notes : m.notes = m₁.notes
  tools : m.tools = m₁.tools
  directory : m.directory = m₁.directory
  kept : ∃ new, m.changes = new ++ m₁.changes ∧
    ((∀ ch ∈ new, ch.Spares names m₁.directory) → ∀ p ∈ names,
      m.files.spot m₁.directory p = m₁.files.spot m₁.directory p)

namespace Left

variable {names : List Path} {m₁ m m' : Machine}

theorem refl : Left names m m := ⟨rfl, rfl, rfl, [], rfl, fun _ _ _ => rfl⟩

theorem alike (h : Left names m₁ m) (hnotes : m'.notes = m.notes) (htools : m'.tools = m.tools)
    (hdirectory : m'.directory = m.directory) (hchanges : m'.changes = m.changes)
    (hfiles : m'.files = m.files) : Left names m₁ m' := by
  obtain ⟨new, hnew, hsame⟩ := h.kept
  refine ⟨hnotes.trans h.notes, htools.trans h.tools, hdirectory.trans h.directory, new,
    hchanges.trans hnew, ?_⟩
  rw [hfiles]
  exact hsame

/-- One more change that spares the names makes no difference. -/
theorem change (h : Left names m₁ m) (hnotes : m'.notes = m.notes) (htools : m'.tools = m.tools)
    (hdirectory : m'.directory = m.directory) {ch : Change} (hchanges : m'.changes = ch :: m.changes)
    (hbefore : ch.before = m.files) (hafter : ch.after = m'.files) : Left names m₁ m' := by
  obtain ⟨new, hnew, hsame⟩ := h.kept
  refine ⟨hnotes.trans h.notes, htools.trans h.tools, hdirectory.trans h.directory, ch :: new, ?_,
    fun hs p hp => ?_⟩
  · rw [hchanges, hnew]
    rfl
  · obtain ⟨hfirst, hs⟩ := List.forall_mem_cons.mp hs
    rw [← hsame hs p hp, ← hafter, ← hbefore]
    exact hfirst p hp

/-- Of changes that spare the names, those before `m₁` do, and those after it leave them as they were
there. -/
theorem spared {before : List Change} {earlier new : List Change} (h : Left names m₁ m)
    {cwd : Location} (hbefore : m₁.changes = earlier ++ before) (hnew : m.changes = new ++ before)
    (hspares : ∀ ch ∈ new, ch.Spares names cwd) :
    (∀ ch ∈ earlier, ch.Spares names cwd) ∧
      (m₁.directory = cwd → ∀ p ∈ names, m.files.spot cwd p = m₁.files.spot cwd p) := by
  obtain ⟨later, hlater, hsame⟩ := h.kept
  have hall : new = later ++ earlier := by
    rw [hlater, hbefore, ← List.append_assoc] at hnew
    exact (List.append_cancel_right hnew).symm
  obtain ⟨hlater, hearlier⟩ := List.forall_mem_append.mp (hall ▸ hspares)
  refine ⟨hearlier, ?_⟩
  rintro rfl
  exact hsame hlater

theorem starting (A : Command → Prop) : Starting A (Left names m₁) := by
  refine ⟨?_, ?_, ?_⟩
  · intro m text h
    exact h.alike rfl rfl rfl rfl rfl
  · intro m text h
    exact h.alike rfl rfl rfl rfl rfl
  · intro m c _ h
    rw [Command.start_on]
    cases m.tools m.commands c m.directory m.files with
    | error fault => exact h.alike rfl rfl rfl rfl rfl
    | ok ended => exact h.change rfl rfl rfl rfl rfl rfl

theorem closeScratch (scratch : Scratch) : (Session.closeScratch scratch).Stays (Left names m₁) :=
  Session.closeScratch_stays (fun _ _ _ _ h => h.change rfl rfl rfl rfl rfl rfl) scratch

end Left

namespace Session

variable {s : Session} {m m₀ m₁ m' : Machine} {scratch : Scratch} {targets : List Path} {r : Outcome}

/-- After publishing, a session only makes changes that count. -/
theorem Leaves.left {names : List Path} {result : Except Error Outcome} {m₂ : Machine}
    (h : s.Leaves scratch m result m') (hpublish : s.files.publish.on m = (.ok (), m₂)) :
    Left names m₂ m' := by
  cases h with
  | unpublished hpublish' =>
    rw [hpublish] at hpublish'
    cases hpublish'
  | closed hpublish' hclose =>
    rw [hpublish] at hpublish'
    cases hpublish'
    exact (Left.closeScratch scratch).leaves .refl hclose
  | converted hpublish' hclose hjunit =>
    rw [hpublish] at hpublish'
    cases hpublish'
    exact (Left.starting fun _ => True).junitReport trivial _
      ((Left.closeScratch scratch).leaves .refl hclose)

/-- What is published after a report is what was reported. -/
theorem report_published {text : String} {summary : Option Summary} {m₂ m₃ : Machine}
    (h : Tended s.files m text) (hf : s.files.Distinct) (hclean : s.settings.cleanOnly = false)
    (hreport : s.report.on m = (.ok summary, m₂))
    (hpublish : s.files.publish.on (stopLog.on m₂).2 = (.ok (), m₃)) : ∃ summed,
      summary = some summed ∧
      summed = Summary.ofLog s.settings.successMarker (text ++ written (s.lastMessages m)) ∧
      Telling m m₃ (s.lastMessages m ++ (skipRemark summed ++
        [Text.trimEnd (summed.render m.clock.runStamp)]) ++ [""]) ∧
      m₃.files.Holds m.directory s.files.summaryFile
        (Text.encode (summed.render m.clock.runStamp)) ∧
      m₃.files.Holds m.directory s.files.logFile (Text.encode
        (text ++ written (s.lastMessages m) ++ summed.render m.clock.runStamp ++ "\n")) := by
  obtain ⟨summed, hsummary, hsummed, h₂, htold₂, hholds, -⟩ := report_ok h hf hclean hreport
  obtain ⟨stopped, hstop, h₃, htold₃, hfiles₃⟩ := h₂.stop
  rw [hstop] at hpublish
  obtain ⟨htold₄, -, hpublished, hpublished'⟩ := LogFiles.publish_ok h₃.apart hf hpublish
  have hdirectory := htold₃.directory.trans htold₂.directory
  rw [hdirectory] at hpublished hpublished'
  have hlog := h₃.holds
  rw [hdirectory] at hlog
  have htold := (htold₂.trans htold₃).trans htold₄
  rw [List.append_nil, List.append_nil] at htold
  refine ⟨summed, hsummary, hsummed, htold, ?_, (hpublished _ hlog).1⟩
  refine hpublished' _ ?_
  rw [hfiles₃]
  exact hholds

/-- What a session that began its log on `m₁` answers for, where `told` are the messages that its log
was scanned with. -/
structure Accounts (s : Session) (m₁ m' : Machine) (r : Outcome) (told : List String)
    (summary : Summary) : Prop where
  counted : summary = Summary.ofLog s.settings.successMarker (written told)
  answered : r.summary = some summary
  /-- The log was scanned with all that had been told so far. What came after is the remark on
  skipped tests, the summary and an empty line. -/
  notes : m'.notes.reverse = m₁.notes.reverse ++ told ++ skipRemark summary ++
    [Text.trimEnd (summary.render m₁.clock.runStamp), ""]
  summaryFile : m'.files.Holds m'.directory r.summaryFile
    (Text.encode (summary.render m₁.clock.runStamp))
  /-- The remark on skipped tests is in no file. -/
  logFile : m'.files.Holds m'.directory r.logFile
    (Text.encode (written told ++ summary.render m₁.clock.runStamp ++ "\n"))
  exitCode : r.exitCode =
    if (Text.lines (written told)).any fun line => Text.startsWith line "[Error" then .failures
    else .success

/-- After a report a session answers for all that had been told when it began, as long as nothing but
the session has touched the files that its log and summary are kept in. -/
theorem accounts_of_report {before m₂ : Machine} {summary : Option Summary} {new : List Change}
    (h : Since s.files m₁ before) (hreport : s.report.on before = (.ok summary, m₂))
    (hfinish : (s.finish scratch (.tested summary)).on m₂ = (.ok r, m'))
    (hclean : s.settings.cleanOnly = false) (hnames : s.files.Resolved)
    (hnew : m'.changes = new ++ m₁.changes)
    (hspares : ∀ ch ∈ new, ch.Spares s.files.names m₁.directory) :
    ∃ told summed, before.notes = told.reverse ++ m₁.notes ∧
      s.Accounts m₁ m' r (told ++ s.lastMessages before) summed := by
  obtain ⟨m₃, hpublish, hanswer⟩ := finish_tested_ok hfinish
  obtain ⟨told, new₁, htold, hnew₁, hkept⟩ := h.kept
  -- What is kept is no change, so that those up to publishing are those of the tests.
  have hnew₂ : m₂.changes = before.changes :=
    ((upkeep_changes s.Closes before.changes).report fun _ h => h).leaves rfl hreport
  have hnew₃ : m₃.changes = m₂.changes :=
    ((upkeep_changes s.Closes m₂.changes).publish s.files).leaves
      ((upkeep_changes s.Closes m₂.changes).stopLog m₂ rfl) hpublish
  have hleft : Left s.files.names m₃ m' := (finish_leaves hfinish).left hpublish
  obtain ⟨hspares₁, hsame⟩ := hleft.spared (hnew₃.trans (hnew₂.trans hnew₁)) hnew hspares
  obtain ⟨summed, hsummary, hsummed, htold', hsummaryFile, hlogFile⟩ :=
    report_published (hkept hspares₁) hnames.distinct hclean hreport hpublish
  have hdirectory : m₃.directory = m₁.directory := htold'.directory.trans h.directory
  have hheld : ∀ p ∈ s.files.names, ∀ bytes, m₃.files.Holds before.directory p bytes →
      m'.files.Holds m'.directory p bytes := by
    intro p hp bytes hholds
    unfold FileTree.Holds
    rw [hleft.directory, hdirectory, hsame hdirectory p hp, ← h.directory]
    exact hholds
  have hwritten : written told.reverse ++ written (s.lastMessages before) =
      written (told.reverse ++ s.lastMessages before) := (written_append _ _).symm
  rw [hwritten] at hsummed hlogFile
  rw [h.clock] at htold' hsummaryFile hlogFile
  refine ⟨told.reverse, summed, ?_, ?_⟩
  · rw [htold, List.reverse_reverse]
  rw [hanswer]
  refine ⟨hsummed, hsummary, ?_, ?_, ?_, ?_⟩
  · rw [hleft.notes, htold'.notes, htold]
    simp
  · exact hheld _ (by simp [LogFiles.names, outcomeOf]) _ hsummaryFile
  · exact hheld _ (by simp [LogFiles.names, outcomeOf]) _ hlogFile
  · rw [← Summary.hasFailures_ofLog s.settings.successMarker, ← hsummed, hsummary]
    rfl

/-- A log that has just been begun is in good order where its names are apart. -/
theorem Begins.tended (hbegins : s.Begins m scratch m₁)
    (hapart : m₁.files.Apart m₁.directory s.files.names) : Tended s.files m₁ "" := by
  obtain ⟨_, -, hlog⟩ := hbegins
  obtain ⟨_, _, -, hcreate⟩ := Job.bind_ok hlog
  exact createLog_ok hcreate hapart

/-- However the tests of a session end, what it answers, its log and its summary agree, as long as
nothing but the session has touched the files that they are kept in. -/
theorem run_accounts {new : List Change} (hscratch : s.openScratch.on m = (.ok scratch, m₀))
    (hlog : s.openLog.on m₀ = (.ok (), m₁)) (hrun : (s.run targets).on m = (.ok r, m'))
    (hclean : s.settings.cleanOnly = false) (hnames : s.files.Resolved)
    (hvalid : targets = [] ∨ ∃ target ∈ targets, (Target.classify m₁ target s.cwd).isSome)
    (hapart : m₁.files.Apart m₁.directory s.files.names) (htools : m₁.tools.Sound)
    (hnew : m'.changes = new ++ m₁.changes)
    (hspares : ∀ ch ∈ new, ch.Spares s.files.names m₁.directory) :
    ∃ told summary, s.Accounts m₁ m' r told summary := by
  obtain ⟨_, _, ending, m₂, hbegins, htest, hfinish⟩ := run_ok hrun
  obtain ⟨rfl, rfl⟩ := Begins.unique ⟨m₀, hscratch, hlog⟩ hbegins
  have htended : Tended s.files m₁ "" := hbegins.tended hapart
  have htested := test_ok (Since.lasting scratch.path (fun _ => True) htools)
    (fun _ _ => trivial) (Since.refl htended) htest
  cases htested with
  | untested h =>
    exact absurd htest (test_valid hvalid)
  | failed e h =>
    obtain ⟨_, m₃, -, hfinish⟩ := Job.bind_ok hfinish
    obtain ⟨_, m₄, -, hfinish⟩ := Job.bind_ok hfinish
    cases hfinish
  | @reported before summary h hreport =>
    obtain ⟨told, summed, -, haccounts⟩ :=
      accounts_of_report h hreport hfinish hclean hnames hnew hspares
    exact ⟨_, summed, haccounts⟩

/-- A session that writes its log in place, was given its directory for the runners and makes no report
for other tools answers where its tests come to their end, and changes nothing after them. -/
theorem run_inPlace {p : Path} {m₂ : Machine} {summary : Option Summary}
    (hbegins : s.Begins m (.given p) m₁)
    (htest : (s.test (.given p) targets).on m₁ = (.ok (.tested summary), m₂))
    (hplace : s.files.tmpLogFile = s.files.logFile ∧ s.files.tmpSummaryFile = s.files.summaryFile)
    (hjunit : s.settings.junitXml = false) : ∃ m',
      (s.run targets).on m = (.ok (s.outcomeOf
        (if summary.any Summary.hasFailures then .failures else .success) summary), m') ∧
      m'.changes = m₂.changes := by
  have hpublish : s.files.publish.on (stopLog.on m₂).2 = (.ok (), (stopLog.on m₂).2) := by
    rw [LogFiles.publish, hplace.1, hplace.2,
      Job.on_bind_ok (LogFiles.publishOne_idle (.inl (Path.same_refl _)))]
    exact LogFiles.publishOne_idle (.inl (Path.same_refl _))
  have hstop : Job.on (liftM stopLog) m₂ = (.ok (), (stopLog.on m₂).2) := rfl
  have hfinish : (s.finish (.given p) (.tested summary)).on m₂ = (.ok (s.outcomeOf
      (if summary.any Summary.hasFailures then .failures else .success) summary),
        (stopLog.on m₂).2) := by
    unfold finish
    rw [Job.on_bind_ok hstop]
    simp only [cleanUp, bind_assoc]
    rw [Job.on_bind_ok hpublish, hjunit]
    rfl
  have hrun : (s.run targets).on m = _ := run_on hbegins
  rw [htest] at hrun
  simp only [hfinish] at hrun
  exact ⟨_, hrun, (upkeep_changes s.Closes m₂.changes).stopLog m₂ rfl⟩

end Session

namespace Trial

/-- A test in the root, and what lies under the name of the log. -/
def files (log : List (Location × Node)) : FileTree :=
  { entries := [([], .directory .newDirectory), (["a"], .file 0 .newFile [])] ++ log
    serial := 1 }

/-- A machine on which a tool that is found prints a line and `valgrind` is not found. -/
def machine (log : List (Location × Node)) : Machine :=
  { files := files log, clock := ⟨2024, 5, 1, 12, 0, 0, 0⟩, process := 1, scratchRoot := ⟨"/"⟩
    tools := fun _ command _ files =>
      if command.program = "which" then .error .notFound
      else .ok { written := [(.output, [109, 10])], status := .exited 0, files } }

def session : Session :=
  { settings := { valgrind := true }, environment := .ofList [("CHPL_TEST_TMP_DIR", "/")]
    cwd := ⟨"/"⟩
    layout :=
      { home := ⟨"/"⟩, utilDirectory := ⟨"/"⟩, testDirectory := ⟨"/"⟩, logsDirectory := ⟨"/"⟩
        specTests := false }
    toolchain := ⟨.empty⟩
    files := LogFiles.resolve ⟨"/"⟩ "u" "p" 1 (some ⟨"/w"⟩) ⟨"/"⟩ }

def scratch : Scratch := .given ⟨"/"⟩

def started (log : List (Location × Node)) : Machine := (session.openLog.on (machine log)).2

/-- The machine after the tests, before their error is reported. -/
def failed (log : List (Location × Node)) : Machine :=
  ((session.execute scratch [⟨"/a"⟩] []).on (started log)).2

theorem tools_sound (log : List (Location × Node)) : (machine log).tools.Sound := by
  intro history command cwd files ended hrun hsound
  simp only [machine] at hrun
  split at hrun
  · cases hrun
  · cases hrun
    exact hsound

theorem begins : session.Begins (machine []) scratch (started []) :=
  ⟨machine [], rfl, Prod.ext (by decide +kernel) rfl⟩

theorem apart : (started []).files.Apart (started []).directory session.files.names :=
  FileTree.apart_of_areApart (FileTree.sound_of_isSound (by decide +kernel)) (by decide +kernel)

/-- The tests fail, the file system grants a report of that, and nobody has touched the log. -/
theorem tests_fail :
    ((session.execute scratch [⟨"/a"⟩] []).on (started [])).1 = .error (.fatal .noValgrind) ∧
    ((failed []).files.read (failed []).directory session.files.tmpLogFile).isOk = true ∧
    ((failed []).files.openFile (failed []).directory session.files.tmpLogFile .append
      .newFile).isOk = true ∧
    ((failed []).files.openFile (failed []).directory session.files.tmpSummaryFile .afresh
      .newFile).isOk = true ∧
    ∀ ch ∈ (failed []).changes, ch.Spares session.files.names (started []).directory := by
  unfold Change.Spares
  decide +kernel

theorem work_failed : (session.work scratch [.file ⟨"/a"⟩]).on (started []) =
    (.error (.fatal .noValgrind), failed []) := by
  rw [failed]
  exact Job.on_of_result tests_fail.1

theorem resolved : session.files.Resolved := ⟨⟨"/"⟩, "u", "p", 1, some ⟨"/w"⟩, ⟨"/"⟩, rfl⟩

/-- The session answers, and nobody touches the files that its log and its summary are kept in. -/
theorem answers : ∃ r m', (session.run [⟨"/a"⟩]).on (machine []) = (.ok r, m') ∧
    ∀ ch ∈ m'.changes, ch.Spares session.files.names (started []).directory := by
  have hlasting : Lasting scratch.path (fun _ => True) (Since session.files (started [])) :=
    Since.lasting scratch.path _ (tools_sound [])
  have hsince : Since session.files (started []) (failed []) :=
    (hlasting.execute (fun _ _ => trivial) _ _).leaves (.refl (begins.tended apart)) work_failed
  obtain ⟨-, hread, hreopen, hsummary, hspares⟩ := tests_fail
  obtain ⟨told, new, -, hnew, htended⟩ := hsince.kept
  obtain rfl : (failed []).changes = new := hnew.trans (List.append_nil _)
  -- The report is not carried out: a log in good order is known to have one.
  obtain ⟨before, hnote, hbefore, htold, houtline, -⟩ :=
    (htended hspares).note ("[Error: " ++ Fatal.noValgrind.message ++ "]")
  have hkeepable : session.Keepable (failed []) := ⟨hread, hreopen, hsummary⟩
  obtain ⟨summary, reported, hreport⟩ := Session.report_succeeds hbefore resolved.distinct rfl
    (hkeepable.alike houtline htold.directory)
  have houtcome : (outcome (session.work scratch [.file ⟨"/a"⟩])).on (started []) =
      (.ok (.error (.fatal .noValgrind)), failed []) := by
    rw [Job.on_outcome, work_failed]
  have htest : (session.test scratch [⟨"/a"⟩]).on (started []) =
      (.ok (.tested summary), reported) := by
    have hsort : (session.sortTargets [⟨"/a"⟩]).on (started []) =
        (.ok [.file ⟨"/a"⟩], started []) := rfl
    rw [Session.test_eq, Job.on_bind_ok hsort, Session.testSorted_eq, if_neg (by decide),
      Job.on_bind_ok houtcome, Session.answer, Job.on_bind_ok hnote, Job.on_bind_ok hreport]
    rfl
  obtain ⟨m', hrun, hchanges⟩ := Session.run_inPlace begins htest ⟨rfl, rfl⟩ rfl
  have hreported : reported.changes = before.changes :=
    ((upkeep_changes session.Closes before.changes).report fun _ h => h).leaves rfl hreport
  refine ⟨_, m', hrun, ?_⟩
  rw [hchanges, hreported, htold.changes]
  exact hspares

theorem run_accounts_trial : ∃ r m' told summary,
    (session.run [⟨"/a"⟩]).on (machine []) = (.ok r, m') ∧
      session.Accounts (started []) m' r told summary := by
  obtain ⟨r, m', hrun, hspares⟩ := answers
  obtain ⟨m₀, hscratch, hlog⟩ := begins
  have hvalid : ∃ target ∈ [(⟨"/a"⟩ : Path)],
      (Target.classify (started []) target session.cwd).isSome :=
    ⟨⟨"/a"⟩, List.mem_singleton.mpr rfl, rfl⟩
  obtain ⟨told, summary, haccounts⟩ := Session.run_accounts hscratch hlog hrun rfl resolved
    (.inr hvalid) apart (tools_sound []) (List.append_nil _).symm hspares
  exact ⟨r, m', told, summary, hrun, haccounts⟩

/-- A device under the name of the log takes every message and keeps none, so that the log accounts
for nothing although nobody else has touched it. -/
theorem device_unaccounted : ∃ r m',
    (session.run [⟨"/a"⟩]).on (machine [(["w"], .device none)]) = (.ok r, m') ∧
      session.settings.cleanOnly = false ∧
      (Target.classify (started [(["w"], .device none)]) ⟨"/a"⟩ session.cwd).isSome ∧
      (∀ ch ∈ m'.changes, ch.Spares session.files.names m'.directory) ∧
      ∀ told summary, ¬session.Accounts (started [(["w"], .device none)]) m' r told summary := by
  refine ⟨_, _, rfl, rfl, by decide +kernel, ?_, ?_⟩
  · unfold Change.Spares
    decide +kernel
  · intro told summary h
    obtain ⟨l, k, mode, hfile⟩ := h.logFile
    have hdevice : ((session.run [⟨"/a"⟩]).on (machine [(["w"], .device none)])).2.files.spot []
        ⟨"/w"⟩ = .ok (["w"], some (.device none)) := by decide +kernel
    have hnode := congrArg (fun found => found.toOption.map Prod.snd) (hfile.symm.trans hdevice)
    cases hnode

end Trial

end Regression
