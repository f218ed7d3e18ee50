import Regression.Proofs.WaysOut

namespace Regression

variable {names : List Path} {f : LogFiles} {m m₀ m₁ m₂ m' : Machine} {p : Path}
  {text : String} {s : Session} {targets : List Path} {scratch : Scratch} {r : Outcome}

/-- What clearing one of some names makes of a machine. -/
structure Cleared (names : List Path) (p : Path) (m m' : Machine) : Prop where
  telling : Telling m m' []
  apart : m'.files.Apart m'.directory names
  vacant : m'.files.Vacant m.directory p
  others : ∀ p' ∈ names, p' ≠ p → m'.files.spot m.directory p' = m.files.spot m.directory p'

namespace LogFiles

/-- Removes a file that is there. -/
def clear (p : Path) : Job Unit := do
  if (← get).isFile p then
    keep fun t cwd => t.removeFile cwd p

theorem clear_on (p : Path) (m : Machine) : (clear p).on m =
    if m.isFile p then (keep fun t cwd => t.removeFile cwd p).on m else (.ok (), m) := by
  unfold clear
  rw [Job.on_bind_ok (Job.on_get m)]
  split <;> rfl

theorem clear_ok (h : m.files.Apart m.directory names) (hp : p ∈ names)
    (hok : (clear p).on m = (.ok (), m')) : Cleared names p m m' := by
  rw [clear_on] at hok
  split at hok
  · obtain ⟨files, hremoved, rfl⟩ := keep_ok hok
    obtain ⟨hvacant, hapart, hothers⟩ := h.removeFile hp hremoved
    exact ⟨⟨rfl, rfl, rfl, rfl, rfl⟩, hapart, hvacant, hothers⟩
  · next hfile =>
    cases hok
    refine ⟨⟨rfl, rfl, rfl, rfl, rfl⟩, h, ?_, fun _ _ _ => rfl⟩
    obtain ⟨l, o, hspot, hplain⟩ := h.plain p hp
    rcases hplain.cases with rfl | ⟨k, mode, bytes, rfl⟩
    · exact ⟨l, hspot⟩
    · exact absurd (by simp [Machine.isFile, FileTree.isFile, FileTree.find_of_spot hspot, Node.isFile])
        hfile

/-- What is said of a log that is removed reaches the console alone. -/
theorem prepare_ok (hok : f.prepare.on m = (.ok (), m')) : ∃ console m₁,
    (clear f.logFile).on { m with console } = (.ok (), m₁) ∧
      (clear f.summaryFile).on m₁ = (.ok (), m') := by
  unfold prepare at hok
  rw [Job.on_bind_ok (Job.on_get m)] at hok
  split at hok
  · obtain ⟨_, _, hthrown, -⟩ := Job.bind_ok hok
    cases hthrown
  rw [Job.on_bind_ok (Job.on_get m)] at hok
  split at hok
  · next hfile =>
    rw [Job.on_bind_ok (Job.on_lift _ _), Job.on_bind_ok (Job.on_lift _ _)] at hok
    simp only [say_on] at hok
    generalize m.console ++ "" ++ "\n" ++ _ ++ "\n" = console at hok
    obtain ⟨_, m₁, hremoved, hok⟩ := Job.bind_ok hok
    refine ⟨console, m₁, Eq.trans ?_ hremoved, hok⟩
    rw [clear_on]
    exact if_pos hfile
  · next hfile =>
    exact ⟨m.console, m, (clear_on _ _).trans (if_neg hfile), hok⟩

end LogFiles

/-- A log that is created among names that are apart is in good order, and the others lead where they
led. -/
theorem createLog_apart (h : m.files.Apart m.directory f.names)
    (hok : (createLog f.tmpLogFile true).on m = (.ok (), m')) :
    Tended f m' "" ∧ Telling m m' [] ∧ ∀ p ∈ f.names, p ≠ f.tmpLogFile →
      m'.files.spot m.directory p = m.files.spot m.directory p := by
  have hcreated := createLog_ok hok
  obtain ⟨files, hd, hopened, rfl⟩ := createLog_opens hok
  obtain ⟨k, -, hwrote⟩ := h.openFile f.tmpLogFile_mem hopened
  exact ⟨hcreated hwrote.apart, ⟨rfl, rfl, rfl, rfl, rfl⟩, hwrote.others⟩

namespace Session

/-- What a session that has begun its log makes of the machine that it finds. -/
structure Opened (s : Session) (m m' : Machine) : Prop where
  tended : Tended s.files m' ""
  notes : m'.notes = m.notes
  tools : m'.tools = m.tools
  directory : m'.directory = m.directory
  clock : m'.clock = m.clock
  cleared : m'.files.Vacant m.directory s.files.summaryFile
  /-- Nothing is cleared under the name that the process has for its summary. -/
  left : s.files.tmpSummaryFile ≠ s.files.summaryFile →
    m'.files.spot m.directory s.files.tmpSummaryFile = m.files.spot m.directory s.files.tmpSummaryFile

theorem openLog_opened (h : m.files.Apart m.directory s.files.names) (hf : s.files.Distinct)
    (hok : s.openLog.on m = (.ok (), m')) : s.Opened m m' := by
  obtain ⟨_, m₂, hprepare, hcreate⟩ := Job.bind_ok hok
  obtain ⟨console, m₁, hlog, hsummary⟩ := LogFiles.prepare_ok hprepare
  have hmem : s.files.logFile ∈ s.files.names ∧ s.files.summaryFile ∈ s.files.names ∧
      s.files.tmpSummaryFile ∈ s.files.names := by simp [LogFiles.names]
  obtain ⟨hmemLog, hmemSummary, hmemTmp⟩ := hmem
  have h₁ : Cleared s.files.names s.files.logFile { m with console } m₁ :=
    LogFiles.clear_ok h hmemLog hlog
  have h₂ : Cleared s.files.names s.files.summaryFile m₁ m₂ :=
    LogFiles.clear_ok h₁.apart hmemSummary hsummary
  obtain ⟨htended, htold, hothers⟩ := createLog_apart h₂.apart hcreate
  have hsaid : Telling m { m with console } [] := ⟨rfl, rfl, rfl, rfl, rfl⟩
  have htold := ((hsaid.trans h₁.telling).trans h₂.telling).trans htold
  have hdirectory₁ : m₁.directory = m.directory := h₁.telling.directory
  have hdirectory₂ : m₂.directory = m.directory := h₂.telling.directory.trans hdirectory₁
  refine ⟨htended, htold.notes, htold.tools, htold.directory, htold.clock, ?_, fun hne => ?_⟩
  · unfold FileTree.Vacant
    rw [← hdirectory₂, hothers _ hmemSummary hf.back.symm, h₂.telling.directory]
    exact h₂.vacant
  · have hkept₁ := h₁.others _ hmemTmp hf.across.symm
    have hkept₂ := h₂.others _ hmemTmp hne
    have hkept := hothers _ hmemTmp hf.written.symm
    rw [hdirectory₁] at hkept₂
    rw [hdirectory₂] at hkept
    exact (hkept.trans hkept₂).trans hkept₁

/-- A directory that is made for the runners is a change like any other. -/
theorem openScratch_left (hsound : m.files.Sound) (hok : s.openScratch.on m = (.ok scratch, m₀)) :
    Left names m m₀ ∧ m₀.files.Sound ∧ m₀.clock = m.clock := by
  have hstays : s.openScratch.Stays fun m₁ =>
      Left names m m₁ ∧ m₁.files.Sound ∧ m₁.clock = m.clock := by
    refine openScratch_stays ?_ ?_
    · rintro m₁ ⟨hleft, hrest⟩
      exact ⟨hleft.alike rfl rfl rfl rfl rfl, hrest⟩
    · rintro m₁ p files hmade ⟨hleft, hsound, hclock⟩
      exact ⟨hleft.change rfl rfl rfl rfl rfl rfl, hsound.makeDirectory hmade, hclock⟩
  exact hstays.leaves ⟨.refl, hsound, rfl⟩ hok

/-- A session never takes a change back. -/
theorem run_changes (hbegins : s.Begins m scratch m₁) :
    m₁.changes <:+ ((s.run targets).on m).2.changes := by
  have hnote : ∀ (m : Machine) (text : String), m₁.changes <:+ m.changes →
      m₁.changes <:+ ((note text).on m).2.changes := by
    intro m text h
    obtain ⟨files, log, console, hnote⟩ := note_records m text
    rw [hnote]
    exact h
  have hlasting : Lasting scratch.path (fun _ => True) fun m => m₁.changes <:+ m.changes := by
    refine ⟨⟨fun _ _ h => h, fun _ _ h => h, ?_⟩, hnote, ?_⟩
    · intro m c _ h
      rw [Command.start_on]
      cases m.tools m.commands c m.directory m.files with
      | error fault => exact h
      | ok ended => exact h.trans (List.suffix_cons _ _)
    · intro m files _ h
      exact h.trans (List.suffix_cons _ _)
  have hupkeep : Upkeep s.Closes fun m => m₁.changes <:+ m.changes :=
    ⟨fun _ _ h => h, fun m text _ => hnote m text, fun _ _ h => h, fun _ _ _ _ _ _ h => h,
      fun _ _ _ _ _ h => h, fun _ _ _ _ _ h => h, fun _ _ _ _ h => h⟩
  have hconcluding : Concluding s scratch fun m => m₁.changes <:+ m.changes :=
    ⟨hupkeep, closeScratch_stays (fun _ _ _ _ h => h.trans (List.suffix_cons _ _)) scratch,
      fun _ => hlasting.toStarting.junitReport trivial⟩
  exact hconcluding.run hbegins
    (hlasting.test hupkeep (fun _ _ => trivial) targets m₁ List.suffix_rfl).1

/-- What nothing but the session touches as long as it runs, nothing but the session touches once it
has begun its log. -/
theorem Undisturbed.opened (hu : s.Undisturbed m m') (hf : s.files.Distinct)
    (hbegins : s.Begins m scratch m₁) (hgrown : m₁.changes <:+ m'.changes) :
    s.Opened m m₁ ∧ s.Undisturbed m₁ m' := by
  obtain ⟨m₀, hscratch, hlog⟩ := hbegins
  obtain ⟨new, hnew, hspares⟩ := hu.spared
  obtain ⟨later, hlater⟩ := hgrown
  obtain ⟨hleft, hsound, hclock⟩ := openScratch_left hu.apart.sound hscratch
  obtain ⟨made, hmade, hsame⟩ := hleft.kept
  have hbegun : m₁.changes = m₀.changes :=
    ((upkeep_changes s.Closes m₀.changes).openLog (s := s)).leaves rfl hlog
  have hsplit : new = later ++ made := by
    rw [← hlater, hbegun, hmade, ← List.append_assoc] at hnew
    exact (List.append_cancel_right hnew).symm
  obtain ⟨hspares, hspares₀⟩ := List.forall_mem_append.mp (hsplit ▸ hspares)
  have hsame := hsame hspares₀
  have hapart : m₀.files.Apart m₀.directory s.files.names := by
    rw [hleft.directory]
    exact hu.apart.same hsound hsame
  have hopened := openLog_opened hapart hf hlog
  have hdirectory : m₁.directory = m.directory := hopened.directory.trans hleft.directory
  have hmem : s.files.tmpSummaryFile ∈ s.files.names := by simp [LogFiles.names]
  refine ⟨⟨hopened.tended, hopened.notes.trans hleft.notes, hopened.tools.trans hleft.tools,
    hdirectory, hopened.clock.trans hclock, ?_, fun hne => ?_⟩, hopened.tended.apart, ?_, later,
    hlater.symm, ?_⟩
  · rw [← hleft.directory]
    exact hopened.cleared
  · rw [← hsame _ hmem, ← hleft.directory]
    exact hopened.left hne
  · rw [hopened.tools, hleft.tools]
    exact hu.tools
  · rw [hdirectory]
    exact hspares

end Session

/-- What tests that began on `m₁` have made of the machine: besides keeping the log, they leave the
names where they led, as long as every change has spared them. -/
structure Aside (f : LogFiles) (m₁ m : Machine) : Prop extends Since f m₁ m where
  others : ∃ new, m.changes = new ++ m₁.changes ∧
    ((∀ ch ∈ new, ch.Spares f.names m₁.directory) → ∀ p ∈ f.names, p ≠ f.tmpLogFile →
      m.files.spot m₁.directory p = m₁.files.spot m₁.directory p)

namespace Aside

theorem refl (h : Tended f m "") : Aside f m m :=
  { Since.refl h with others := ⟨[], rfl, fun _ _ _ _ => rfl⟩ }

/-- One more change that spares the names makes no difference. -/
theorem change (h : Aside f m₁ m) (hsince : Since f m₁ m') {ch : Change}
    (hchanges : m'.changes = ch :: m.changes) (hbefore : ch.before = m.files)
    (hafter : ch.after = m'.files) : Aside f m₁ m' := by
  obtain ⟨new, hnew, hsame⟩ := h.others
  refine { hsince with others := ⟨ch :: new, ?_, fun hs p hp hne => ?_⟩ }
  · rw [hchanges, hnew, List.cons_append]
  · obtain ⟨hfirst, hs⟩ := List.forall_mem_cons.mp hs
    rw [← hsame hs p hp hne, ← hafter, ← hbefore]
    exact hfirst p hp

/-- A message goes to the log alone. -/
theorem note (h : Aside f m₁ m) (hsince : Since f m₁ ((Regression.note text).on m).2) :
    Aside f m₁ ((Regression.note text).on m).2 := by
  obtain ⟨new, hnew, hsame⟩ := h.others
  obtain ⟨told, new', -, hnew', htended⟩ := h.kept
  obtain rfl : new = new' := List.append_cancel_right (hnew.symm.trans hnew')
  obtain ⟨files, log, console, hrun⟩ := note_records m text
  refine { hsince with others := ⟨new, ?_, fun hs p hp hne => ?_⟩ }
  · rw [hrun]
    exact hnew
  · obtain ⟨m', hnote, -, -, -, hothers⟩ := (htended hs).note text
    rw [hnote, ← h.directory, hothers p hp hne, h.directory]
    exact hsame hs p hp hne

/-- Every step of the tests keeps this so, where the tools leave sound trees. -/
theorem lasting (tmp : Path) (A : Command → Prop) (htools : m₁.tools.Sound) :
    Lasting tmp A (Aside f m₁) := by
  have hlasting : Lasting tmp A (Since f m₁) := Since.lasting tmp A htools
  refine ⟨⟨?_, ?_, ?_⟩, ?_, ?_⟩
  · intro m text h
    exact { hlasting.console m text h.toSince with others := h.others }
  · intro m text h
    exact { hlasting.diagnostics m text h.toSince with others := h.others }
  · intro m c hc h
    have hsince := hlasting.start m c hc h.toSince
    rw [Command.start_on] at hsince ⊢
    cases hstart : m.tools m.commands c m.directory m.files with
    | error fault =>
      rw [hstart] at hsince
      exact { hsince with others := h.others }
    | ok ended =>
      rw [hstart] at hsince
      exact h.change hsince rfl rfl rfl
  · intro m text h
    exact h.note (hlasting.note m text h.toSince)
  · intro m files hedit h
    exact h.change (hlasting.edit m files hedit h.toSince) rfl rfl rfl

/-- Tests whose changes have spared the names leave a log that can be closed. -/
theorem shut (h : Aside f m₁ m) {new : List Change} (hnew : m.changes = new ++ m₁.changes)
    (hspares : ∀ ch ∈ new, ch.Spares f.names m₁.directory) : ∃ told stopped,
    stopLog.on m = ((), stopped) ∧ Shut f stopped (written told) ∧
      stopped.notes = told.reverse ++ m₁.notes ∧ stopped.directory = m₁.directory ∧
      ∀ p ∈ f.names, p ≠ f.tmpLogFile →
        stopped.files.spot m₁.directory p = m₁.files.spot m₁.directory p := by
  obtain ⟨told, new', htold, hnew', htended⟩ := h.kept
  obtain rfl : new = new' := List.append_cancel_right (hnew.symm.trans hnew')
  obtain ⟨new', hnew', hothers⟩ := h.others
  obtain rfl : new = new' := List.append_cancel_right (hnew.symm.trans hnew')
  obtain ⟨stopped, hstop, hshut, hstopped, hfiles⟩ := (htended hspares).stop
  refine ⟨told.reverse, stopped, hstop, hshut, ?_, hstopped.directory.trans h.directory, ?_⟩
  · rw [hstopped.notes, htold, List.reverse_reverse]
    rfl
  · rw [hfiles]
    exact hothers hspares

end Aside

/-- What a closed log and a summary become when they are published on `m` and then left alone. -/
structure LogFiles.Published (f : LogFiles) (m : Machine) (text : String) (m' : Machine) : Prop where
  notes : m'.notes = m.notes
  directory : m'.directory = m.directory
  log : m'.files.Holds m.directory f.logFile (Text.encode text)
  summary : ∀ bytes, m.files.Holds m.directory f.tmpSummaryFile bytes →
    m'.files.Holds m.directory f.summaryFile bytes
  /-- Where nothing lies under the name that the process has for it, no summary is published. -/
  none : m.files.Vacant m.directory f.tmpSummaryFile →
    m'.files.spot m.directory f.summaryFile = m.files.spot m.directory f.summaryFile

namespace LogFiles

theorem publish_vacant (h : m.files.Apart m.directory f.names) (hf : f.Distinct)
    (hok : f.publish.on m = (.ok (), m'))
    (hvacant : m.files.Vacant m.directory f.tmpSummaryFile) :
    m'.files.spot m.directory f.summaryFile = m.files.spot m.directory f.summaryFile := by
  obtain ⟨_, m₁, hlog, hsummary⟩ := Job.bind_ok hok
  obtain ⟨htold, -, hothers, -⟩ := publishOne_ok h (by simp [names]) (by simp [names]) hf.log hlog
  obtain ⟨l, hspot⟩ := hvacant
  rw [← hothers f.tmpSummaryFile (by simp [names]) hf.written.symm hf.across.symm,
    ← htold.directory] at hspot
  have hnone : m₁.isFile f.tmpSummaryFile = false := by
    simp [Machine.isFile, FileTree.isFile, FileTree.find_of_spot_none hspot]
  rw [publishOne_idle (.inr hnone)] at hsummary
  cases hsummary
  exact hothers f.summaryFile (by simp [names]) hf.back.symm hf.published.symm

theorem publish_published (h : Shut f m text) (hf : f.Distinct)
    (hok : f.publish.on m = (.ok (), m₁)) (hleft : Left f.names m₁ m')
    (hsame : ∀ p ∈ f.names, m'.files.spot m₁.directory p = m₁.files.spot m₁.directory p) :
    f.Published m text m' := by
  obtain ⟨htold, -, hlog, hsummary⟩ := publish_ok h.apart hf hok
  rw [htold.directory] at hsame
  refine ⟨hleft.notes.trans htold.notes, hleft.directory.trans htold.directory, ?_, ?_, ?_⟩
  · unfold FileTree.Holds
    rw [hsame _ (by simp [names])]
    exact (hlog _ h.holds).1
  · intro bytes hbytes
    unfold FileTree.Holds
    rw [hsame _ (by simp [names])]
    exact hsummary bytes hbytes
  · intro hvacant
    rw [hsame _ (by simp [names])]
    exact publish_vacant h.apart hf hok hvacant

end LogFiles

namespace Session

/-- What a session that began on `m` and answers `r` has under the names of its log and its
summary. -/
structure Fresh (s : Session) (m m' : Machine) (r : Outcome) : Prop where
  /-- The log holds all that the session has told it, in order, and nothing else. The remark on
  skipped tests comes while it is closed. -/
  log : ∃ before after, m'.notes.reverse = m.notes.reverse ++ before ++
      r.summary.elim [] skipRemark ++ after ∧
    m'.files.Holds m'.directory r.logFile (Text.encode (written (before ++ after)))
  summary : ∀ summary, r.summary = some summary → m'.files.Holds m'.directory r.summaryFile
    (Text.encode (summary.render m.clock.runStamp))
  /-- There is a summary just where one was answered, if the session has found none under the name of
  its process. -/
  present : s.files.tmpSummaryFile = s.files.summaryFile ∨
      m.files.Vacant m.directory s.files.tmpSummaryFile →
    (m'.isThere r.summaryFile = true ↔ r.summary.isSome)
  /-- One that it has found there passes for its own where it answers none. -/
  leftover : r.summary = none → s.files.tmpSummaryFile ≠ s.files.summaryFile → ∀ bytes,
    m.files.Holds m.directory s.files.tmpSummaryFile bytes →
      m'.files.Holds m'.directory r.summaryFile bytes

/-- A session publishes its log as the tests have left it. -/
theorem publishes_aside {ending : Ending} {m₃ : Machine} (h : Aside s.files m₁ m₂)
    (hf : s.files.Distinct) (hu : s.Undisturbed m₁ m')
    (hpublish : s.files.publish.on (stopLog.on m₂).2 = (.ok (), m₃))
    (hfinish : (s.finish scratch ending).on m₂ = (.ok r, m')) : ∃ told stopped,
      s.files.Published stopped (written told) m' ∧ stopped.notes = told.reverse ++ m₁.notes ∧
      stopped.directory = m₁.directory ∧ ∀ p ∈ s.files.names, p ≠ s.files.tmpLogFile →
        stopped.files.spot m₁.directory p = m₁.files.spot m₁.directory p := by
  have hleft : Left s.files.names m₃ m' := (finish_leaves hfinish).left hpublish
  obtain ⟨new, hnew, -⟩ := h.others
  have hsame : m₃.changes = m₂.changes :=
    ((upkeep_changes s.Closes m₂.changes).publish s.files).leaves
      ((upkeep_changes s.Closes m₂.changes).stopLog m₂ rfl) hpublish
  obtain ⟨all, hall, hspares⟩ := hu.spared
  obtain ⟨hspares, hkept⟩ := hleft.spared (hsame.trans hnew) hall hspares
  obtain ⟨told, stopped, hstop, hshut, htold, hstopped, haside⟩ := h.shut hnew hspares
  rw [hstop] at hpublish
  have hdirectory : m₃.directory = m₁.directory :=
    (LogFiles.publish_ok hshut.apart hf hpublish).1.directory.trans hstopped
  exact ⟨told, stopped, LogFiles.publish_published hshut hf hpublish hleft
    (hdirectory ▸ hkept hdirectory), htold, hstopped, haside⟩

/-- What a session publishes that answers no summary. -/
theorem fresh_unsummarised {ending : Ending} {code : ExitCode} {m₃ : Machine}
    (hopened : s.Opened m m₁) (h : Aside s.files m₁ m₂) (hf : s.files.Distinct)
    (hu : s.Undisturbed m₁ m') (hpublish : s.files.publish.on (stopLog.on m₂).2 = (.ok (), m₃))
    (hfinish : (s.finish scratch ending).on m₂ = (.ok r, m')) (hr : r = s.outcomeOf code none) :
    s.Fresh m m' r := by
  obtain ⟨told, stopped, hpublished, htold, hstopped, haside⟩ :=
    publishes_aside h hf hu hpublish hfinish
  have hcwd : stopped.directory = m.directory := hstopped.trans hopened.directory
  have hend : m'.directory = m.directory := hpublished.directory.trans hcwd
  obtain ⟨hnotes, -, hlog, hsummary, hnone⟩ := hpublished
  rw [hcwd] at hlog hsummary hnone
  rw [hopened.directory] at haside
  have hmem : s.files.summaryFile ∈ s.files.names ∧ s.files.tmpSummaryFile ∈ s.files.names := by
    simp [LogFiles.names]
  have hspot := haside _ hmem.1 hf.back.symm
  have htmp := haside _ hmem.2 hf.written.symm
  subst hr
  refine ⟨⟨told, [], ?_, ?_⟩, fun _ hsome => ?_, fun hfound => ?_, fun _ hne bytes hbytes => ?_⟩
  · rw [hnotes, htold, hopened.notes]
    simp [outcomeOf]
  · rw [List.append_nil, hend]
    exact hlog
  · cases hsome
  · have hvacant : stopped.files.Vacant m.directory s.files.tmpSummaryFile := by
      unfold FileTree.Vacant
      rw [htmp]
      by_cases heq : s.files.tmpSummaryFile = s.files.summaryFile
      · rw [heq]
        exact hopened.cleared
      · rw [hopened.left heq]
        exact hfound.resolve_left heq
    obtain ⟨l, hgone⟩ := hopened.cleared
    rw [← hspot, ← hnone hvacant, ← hend] at hgone
    simp [outcomeOf, Machine.isThere, FileTree.isThere, FileTree.find_of_spot_none hgone, Except.isOk,
      Except.toBool]
  · rw [hend]
    refine hsummary bytes ?_
    unfold FileTree.Holds
    rw [htmp, hopened.left hne]
    exact hbytes

/-- What a session publishes that answers the summary of its log. -/
theorem fresh_summarised {told : List String} {summary : Summary} (hopened : s.Opened m m₁)
    (h : s.Accounts m₁ m' r told summary) : s.Fresh m m' r := by
  have hclock : m₁.clock = m.clock := hopened.clock
  refine ⟨⟨told, [Text.trimEnd (summary.render m₁.clock.runStamp), ""], ?_, ?_⟩, ?_, ?_, ?_⟩
  · rw [h.notes, h.answered, hopened.notes]
    rfl
  · rw [written_append]
    have hclosing : written [Text.trimEnd (summary.render m₁.clock.runStamp), ""] =
        summary.render m₁.clock.runStamp ++ "\n" := by
      simp [written, Summary.trimEnd_render]
    rw [hclosing, ← String.append_assoc]
    exact h.logFile
  · intro answered hanswered
    rw [h.answered] at hanswered
    cases hanswered
    rw [← hclock]
    exact h.summaryFile
  · intro _
    obtain ⟨l, k, mode, hspot⟩ := h.summaryFile
    simp [h.answered, Machine.isThere, FileTree.isThere, FileTree.find_of_spot hspot, Except.isOk,
      Except.toBool]
  · intro hnone
    rw [h.answered] at hnone
    cases hnone

/-- Whatever a session finds under the names of its log and its summary, as long as nothing else
touches them. -/
theorem run_fresh (hrun : (s.run targets).on m = (.ok r, m')) (hnames : s.files.Resolved)
    (hu : s.Undisturbed m m') : s.Fresh m m' r := by
  obtain ⟨scratch, m₁, ending, m₂, hbegins, htest, hfinish⟩ := run_ok hrun
  have hgrown : m₁.changes <:+ m'.changes := by
    have hchanges : m₁.changes <:+ ((s.run targets).on m).2.changes := run_changes hbegins
    rwa [hrun] at hchanges
  obtain ⟨hopened, hu⟩ := hu.opened hnames.distinct hbegins hgrown
  have hlasting : Lasting scratch.path (fun _ => True) (Aside s.files m₁) :=
    Aside.lasting scratch.path _ hu.tools
  cases test_ok hlasting (fun _ _ => trivial) (.refl hopened.tended) htest with
  | untested h =>
    obtain ⟨m₃, hpublish, hr⟩ := finish_untested_ok hfinish
    exact fresh_unsummarised hopened h hnames.distinct hu hpublish hfinish hr
  | failed e h => exact absurd hfinish finish_failed
  | @reported before summary h hreport =>
    cases hclean : s.settings.cleanOnly with
    | false =>
      obtain ⟨all, hall, hspares⟩ := hu.spared
      obtain ⟨told, summed, -, haccounts⟩ :=
        accounts_of_report h.toSince hreport hfinish hclean hnames hall hspares
      exact fresh_summarised hopened haccounts
    | true =>
      obtain ⟨m₃, hpublish, hr⟩ := finish_tested_ok hfinish
      rw [report_clean_eq hclean] at hreport
      obtain ⟨_, _, hnote, hreport⟩ := Job.bind_ok hreport
      obtain ⟨_, _, hblank, hreport⟩ := Job.bind_ok hreport
      cases hreport
      have h := (hlasting.stays_note _).leaves ((hlasting.stays_note _).leaves h hnote) hblank
      exact fresh_unsummarised hopened h hnames.distinct hu hpublish hfinish hr

end Session

namespace Trial

/-- A machine on which earlier sessions have left logs and summaries, those of another process among
them, and a log of a process with the number of the next. -/
def littered (summary : List (Location × Node)) : Machine :=
  let names := ["u.p.log", "u.p.log.summary", "u.p.pid1.log", "u.p.pid2.log", "u.p.pid2.log.summary"]
  let left := names.zipIdx.map fun (name, i) => ([name], .file (i + 1) .newFile (Text.encode "old"))
  { machine [] with files := { files (left ++ summary) with serial := 7 } }

/-- A session that only cleans answers no summary under this name. -/
def Unanswered (answer : Except Error Outcome) : Prop :=
  answer.toOption.map (fun r => (r.summary, r.summaryFile)) =
    some (none, (hosting true).files.summaryFile)

theorem Unanswered.outcome {answer : Except Error Outcome} (h : Unanswered answer) : ∃ r,
    answer = .ok r ∧ r.summary = none ∧ r.summaryFile = (hosting true).files.summaryFile := by
  cases answer with
  | error e => cases h
  | ok r =>
    injection h with h
    injection h with hsummary hfile
    exact ⟨r, rfl, hsummary, hfile⟩

theorem run_fresh_littered : ∃ r m',
    ((hosting true).run [⟨"/a"⟩]).on (littered []) = (.ok r, m') ∧
      (hosting true).Fresh (littered []) m' r ∧
      (littered []).isThere r.summaryFile = true ∧ m'.isThere r.summaryFile = false := by
  have hends : Unanswered (((hosting true).run [⟨"/a"⟩]).on (littered [])).1 ∧
      (littered []).isThere (hosting true).files.summaryFile = true ∧
      ∀ ch ∈ (((hosting true).run [⟨"/a"⟩]).on (littered [])).2.changes,
        ch.Spares (hosting true).files.names (littered []).directory := by
    unfold Unanswered Change.Spares
    decide +kernel
  have hapart : (littered []).files.Apart (littered []).directory (hosting true).files.names :=
    FileTree.apart_of_areApart (FileTree.sound_of_isSound (by decide +kernel)) (by decide +kernel)
  have hvacant : (littered []).files.Vacant (littered []).directory
      (hosting true).files.tmpSummaryFile := ⟨["u.p.pid1.log.summary"], by decide +kernel⟩
  obtain ⟨hanswer, hthere, hspares⟩ := hends
  cases hrun : ((hosting true).run [⟨"/a"⟩]).on (littered []) with
  | mk answer m' =>
    rw [hrun] at hanswer hspares
    obtain ⟨r, rfl, hsummary, hfile⟩ := hanswer.outcome
    have hfresh := Session.run_fresh hrun ⟨⟨"/"⟩, "u", "p", 1, none, ⟨"/"⟩, rfl⟩
      ⟨hapart, tools_sound [], m'.changes, (List.append_nil _).symm, hspares⟩
    refine ⟨r, m', rfl, hfresh, hfile ▸ hthere, Bool.eq_false_iff.mpr fun hleft => ?_⟩
    have hsome := (hfresh.present (.inr hvacant)).mp hleft
    rw [hsummary] at hsome
    cases hsome

/-- A summary of a session that was killed. -/
def killed : List (Location × Node) :=
  [(["u.p.pid1.log.summary"], .file 6 .newFile (Text.encode "old"))]

/-- What a session that was killed has left under the name of the process is published by one that
answers no summary. -/
theorem leftover_published : ∃ r m',
    ((hosting true).run [⟨"/a"⟩]).on (littered killed) = (.ok r, m') ∧
      (∀ ch ∈ m'.changes, ch.Spares (hosting true).files.names (littered killed).directory) ∧
      r.summary = none ∧ m'.isThere r.summaryFile = true ∧
      (m'.files.read m'.directory r.summaryFile).toOption = some (Text.encode "old") := by
  have hends : Unanswered (((hosting true).run [⟨"/a"⟩]).on (littered killed)).1 ∧
      (∀ ch ∈ (((hosting true).run [⟨"/a"⟩]).on (littered killed)).2.changes,
        ch.Spares (hosting true).files.names (littered killed).directory) ∧
      (((hosting true).run [⟨"/a"⟩]).on (littered killed)).2.isThere
        (hosting true).files.summaryFile = true ∧
      ((((hosting true).run [⟨"/a"⟩]).on (littered killed)).2.files.read
        (((hosting true).run [⟨"/a"⟩]).on (littered killed)).2.directory
        (hosting true).files.summaryFile).toOption = some (Text.encode "old") := by
    unfold Unanswered Change.Spares
    decide +kernel
  cases hrun : ((hosting true).run [⟨"/a"⟩]).on (littered killed) with
  | mk answer m' =>
    rw [hrun] at hends
    obtain ⟨hanswer, hspares, hthere, hread⟩ := hends
    obtain ⟨r, rfl, hsummary, hfile⟩ := hanswer.outcome
    rw [← hfile] at hthere hread
    exact ⟨r, m', rfl, hspares, hsummary, hthere, hread⟩

end Trial

end Regression
