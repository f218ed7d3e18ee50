import Regression.Proofs.Account
import Regression.Proofs.Standing

namespace Regression

namespace Session

variable {s : Session} {m m' m₁ m₂ : Machine} {scratch : Scratch} {targets : List Path}
  {text : String}

/-- Nothing but the session touches the files that its log and its summary are kept in, and they are
apart when it begins on `m₁`. -/
structure Undisturbed (s : Session) (m₁ m' : Machine) : Prop where
  apart : m₁.files.Apart m₁.directory s.files.names
  tools : m₁.tools.Sound
  spared : ∃ new, m'.changes = new ++ m₁.changes ∧
    ∀ ch ∈ new, ch.Spares s.files.names m₁.directory

/-- What a session that began its log on `m₁` leaves behind on `m'`. -/
structure Departs (s : Session) (scratch : Scratch) (targets : List Path) (m₁ m' : Machine) :
    Prop where
  /-- Where its tests come to their end and publishing goes well, the whole log lies under its final
  name, and nothing is left under the name of the process. -/
  published : s.Undisturbed m₁ m' → ∀ ending m₂ m₃,
    (s.test scratch targets).on m₁ = (.ok ending, m₂) →
    s.files.publish.on (stopLog.on m₂).2 = (.ok (), m₃) → ∃ text,
      m₂.files.Holds m₂.directory s.files.tmpLogFile (Text.encode text) ∧
      m'.files.Holds m'.directory s.files.logFile (Text.encode text) ∧
      (s.files.tmpLogFile ≠ s.files.logFile → m'.files.Vacant m'.directory s.files.tmpLogFile)
  /-- Its tests come to no end only where the log cannot be read back or opened again or its summary
  cannot be written. That nothing else stops them rests on the machine: a write to a regular file that
  is open never fails, nor does one to the console, and directories that cannot be made or removed
  leave the tree as it was. -/
  refused : s.Undisturbed m₁ m' → ∀ e m₂, (s.test scratch targets).on m₁ = (.error e, m₂) →
    s.settings.cleanOnly = false ∧
      ∃ before, s.report.on before = (.error e, m₂) ∧ ¬s.Keepable before
  /-- The directory that it made for the runners is gone before the log is turned into a report for
  other tools: what still lies under its name refuses to be removed. -/
  owned : ∀ p, scratch = .owned p → ∃ m₄,
    (m' = m₄ ∨ s.settings.junitXml = true ∧ m' = (s.junitReport.on m₄).2) ∧
      ((m₄.files.findItself m₄.directory p).isOk →
        ∃ fault, m₄.files.removeDirectories m₄.directory p = .error fault)
  /-- A directory that was given for the runners is still there, unless a tool took it away or its
  path was made to lead elsewhere. -/
  given : ∀ p l mode, scratch = .given p →
    m₁.files.find m₁.directory p = .ok (l, .directory mode) → m₁.files.Sound → m₁.tools.Sound →
    (∃ new, m'.changes = new ++ m₁.changes ∧ ∀ ch ∈ new, ch.Leaves p m₁.directory l) →
    m'.files.HasDirectory l

/-- A session that only cleans ends its log with one line more. -/
theorem report_cleaned (h : Tended s.files m text) (hclean : s.settings.cleanOnly = true) :
    ∃ m' text', s.report.on m = (.ok none, m') ∧ m'.directory = m.directory ∧
      Tended s.files m' text' := by
  obtain ⟨m₁, hnote, h₁, htold₁, -⟩ := h.note "[Summary: CLEAN ONLY]"
  obtain ⟨m₂, hblank, h₂, htold₂, -⟩ := h₁.note ""
  refine ⟨m₂, _, ?_, (htold₁.trans htold₂).directory, h₂⟩
  rw [report_clean_eq hclean, Job.on_bind_ok hnote, noteBlank, Job.on_bind_ok hblank, Job.on_pure]

/-- A report leaves the log in good order. -/
theorem report_tended (h : Tended s.files m text) (hf : s.files.Distinct) {summary : Option Summary}
    (hreport : s.report.on m = (.ok summary, m')) :
    m'.directory = m.directory ∧ ∃ text', Tended s.files m' text' := by
  cases hclean : s.settings.cleanOnly with
  | false =>
    obtain ⟨summed, -, -, h', htold, -⟩ := report_ok h hf hclean hreport
    exact ⟨htold.directory, _, h'⟩
  | true =>
    obtain ⟨m₁, text', hcleaned, hdirectory, h'⟩ := report_cleaned h hclean
    rw [hcleaned] at hreport
    cases hreport
    exact ⟨hdirectory, text', h'⟩

/-- Tests that come to their end leave the log in good order. -/
theorem Tested.tended {ending : Ending} (h : s.Tested (Since s.files m₁) m₂ ending)
    (hf : s.files.Distinct) : ∃ new, m₂.changes = new ++ m₁.changes ∧
      ((∀ ch ∈ new, ch.Spares s.files.names m₁.directory) →
        m₂.directory = m₁.directory ∧ ∃ text, Tended s.files m₂ text) := by
  have hsince : ∀ {m}, Since s.files m₁ m → ∃ new, m.changes = new ++ m₁.changes ∧
      ((∀ ch ∈ new, ch.Spares s.files.names m₁.directory) →
        m.directory = m₁.directory ∧ ∃ text, Tended s.files m text) := by
    intro m h
    obtain ⟨told, new, -, hnew, htended⟩ := h.kept
    exact ⟨new, hnew, fun hspares => ⟨h.directory, _, htended hspares⟩⟩
  cases h with
  | untested h => exact hsince h
  | failed e h => exact hsince h
  | @reported before summary h hreport =>
    obtain ⟨new, hnew, htended⟩ := hsince h
    have hsame : m₂.changes = before.changes :=
      ((upkeep_changes s.Closes before.changes).report fun _ h => h).leaves rfl hreport
    refine ⟨new, hsame.trans hnew, fun hspares => ?_⟩
    obtain ⟨hdirectory, text, h⟩ := htended hspares
    obtain ⟨hdirectory', text', h'⟩ := report_tended h hf hreport
    exact ⟨hdirectory'.trans hdirectory, text', h'⟩

/-- A log in good order takes whatever is to be told of a target. -/
theorem sortTarget_tended (h : Tended s.files m text) (target : Path) : ∃ found m' text',
    (s.sortTarget target).on m = (.ok found, m') ∧ Tended s.files m' text' := by
  unfold sortTarget
  rw [Job.on_bind_ok (Job.on_get m)]
  cases hsorted : Target.classify m target s.cwd with
  | some found => exact ⟨some found, m, text, rfl, h⟩
  | none =>
    obtain ⟨m', hnote, h', -⟩ :=
      h.note ("[Error: " ++ target.text ++ " is not a valid file or directory]")
    refine ⟨none, m', _, ?_, h'⟩
    simp only [Option.isNone_none, ↓reduceIte]
    rw [Job.on_bind_ok hnote, Job.on_pure]

theorem sortTargets_tended (h : Tended s.files m text) :
    ∃ sorted m', (s.sortTargets targets).on m = (.ok sorted, m') := by
  induction targets generalizing m text with
  | nil => exact ⟨[], m, rfl⟩
  | cons target rest ih =>
    obtain ⟨found, m₁, text', hsort, h₁⟩ := sortTarget_tended h target
    obtain ⟨sorted, m₂, hrest⟩ := ih h₁
    refine ⟨found.toList ++ sorted, m₂, ?_⟩
    rw [sortTargets, Job.on_bind_ok hsort, Job.on_bind_ok hrest, Job.on_pure]

/-- Tests whose log is in good order all along come to no end only by their report. -/
theorem test_refused {e : Error} (htended : Tended s.files m₁ "") (htools : m₁.tools.Sound)
    (htest : (s.test scratch targets).on m₁ = (.error e, m₂)) :
    ∃ new, m₂.changes = new ++ m₁.changes ∧
      ((∀ ch ∈ new, ch.Spares s.files.names m₁.directory) →
        ∃ before text, Tended s.files before text ∧ s.report.on before = (.error e, m₂)) := by
  have hlasting : Lasting scratch.path (fun _ => True) (Since s.files m₁) :=
    Since.lasting scratch.path _ htools
  obtain ⟨sorted, m₃, hsort⟩ := sortTargets_tended htended
  rw [test_eq, Job.on_bind_ok hsort, testSorted] at htest
  have hsorted : Since s.files m₁ m₃ :=
    (hlasting.sortTargets targets).leaves (.refl htended) hsort
  split at htest
  · cases htest
  cases hwork : (s.work scratch sorted).on m₃ with
  | mk result m₄ =>
    have hworked : Since s.files m₁ m₄ :=
      (hlasting.execute (fun _ _ => trivial) _ _).leaves hsorted hwork
    have houtcome : (outcome (s.work scratch sorted)).on m₃ = (.ok result, m₄) := by
      rw [Job.on_outcome, hwork]
    rw [Job.on_bind_ok houtcome] at htest
    -- What comes after the tests is no change.
    have hupkeep : Upkeep (fun _ => True) fun m => m.changes = m₄.changes :=
      upkeep_changes _ m₄.changes
    have hends : Job.Stays (fun m => m.changes = m₄.changes)
        (do return Ending.tested (← s.report)) :=
      (hupkeep.report fun _ _ => trivial).after fun _ => Job.Keeps.given _
    obtain ⟨told, new, -, hnew, hkept⟩ := hworked.kept
    have hrefused : ∀ {before : Machine}, Job.on (do return Ending.tested (← s.report)) before =
        (.error e, m₂) → s.report.on before = (.error e, m₂) := by
      intro before h
      rw [Job.on_bind] at h
      cases hreport : s.report.on before with
      | mk answer m₅ =>
        rw [hreport] at h
        cases answer <;> cases h
        rfl
    split at htest
    · have hsame := hends.leaves rfl htest
      exact ⟨new, hsame.trans hnew, fun hspares => ⟨m₄, _, hkept hspares, hrefused htest⟩⟩
    · next cause =>
      have hsame := ((hupkeep.stays_note trivial).after fun _ => hends).leaves rfl htest
      refine ⟨new, hsame.trans hnew, fun hspares => ?_⟩
      obtain ⟨before, hnote, hbefore, -⟩ :=
        (hkept hspares).note ("[Error: " ++ cause.message ++ "]")
      rw [Job.on_bind_ok hnote] at htest
      exact ⟨before, _, hbefore, hrefused htest⟩
    · cases htest

/-- A report that fails was refused by the file system. -/
theorem report_refused {e : Error} (h : Tended s.files m text) (hf : s.files.Distinct)
    (hreport : s.report.on m = (.error e, m')) :
    s.settings.cleanOnly = false ∧ ¬s.Keepable m := by
  have hclean : s.settings.cleanOnly = false := by
    refine Bool.eq_false_iff.mpr fun hclean => ?_
    obtain ⟨m₁, text', hcleaned, -⟩ := report_cleaned h hclean
    rw [hcleaned] at hreport
    cases hreport
  refine ⟨hclean, fun hk => ?_⟩
  obtain ⟨summary, m₁, hsucceeds⟩ := report_succeeds h hf hclean hk
  rw [hsucceeds] at hreport
  cases hreport

/-- What lies under the name of a directory that a session has tried to take away refuses that. -/
theorem closeScratch_gone {p : Path} {closing : Except Error Unit}
    (h : (closeScratch (.owned p)).on m = (closing, m'))
    (hthere : (m'.files.findItself m'.directory p).isOk) :
    ∃ fault, m'.files.removeDirectories m'.directory p = .error fault := by
  unfold closeScratch at h
  rw [editOr_on] at h
  cases hfiles : m.files.removeDirectories m.directory p with
  | error fault =>
    rw [hfiles] at h
    cases h
    exact ⟨fault, hfiles⟩
  | ok files =>
    rw [hfiles] at h
    cases h
    rw [FileTree.removeDirectories_gone hfiles] at hthere
    cases hthere

/-- Whichever way a session ends, taking away what it made for the runners is the last that it does,
but for turning its log into a report for other tools. -/
theorem run_closes {result : Except Error Outcome} (hbegins : s.Begins m scratch m₁)
    (hrun : (s.run targets).on m = (result, m')) :
    ∃ m₃ closing m₄, (closeScratch scratch).on m₃ = (closing, m₄) ∧
      (m' = m₄ ∨ s.settings.junitXml = true ∧ m' = (s.junitReport.on m₄).2) := by
  rw [run_on hbegins] at hrun
  cases htest : (s.test scratch targets).on m₁ with
  | mk tested m₂ =>
    rw [htest] at hrun
    cases tested with
    | error e =>
      cases hrun
      exact ⟨m₂, _, _, rfl, .inl rfl⟩
    | ok ending =>
      simp only at hrun
      cases hfinish : (s.finish scratch ending).on m₂ with
      | mk answer m₃ =>
        rw [hfinish] at hrun
        cases answer with
        | error e =>
          cases hrun
          exact ⟨m₃, _, _, rfl, .inl rfl⟩
        | ok r =>
          cases hrun
          cases finish_leaves hfinish with
          | closed _ hclose => exact ⟨_, _, _, hclose, .inl rfl⟩
          | converted _ hclose hjunit => exact ⟨_, _, _, hclose, .inr ⟨hjunit, rfl⟩⟩

/-- After publishing, a session makes such changes alone as count, whichever way it ends. -/
theorem run_left {names : List Path} {ending : Ending} {result : Except Error Outcome} {m₃ : Machine}
    (hbegins : s.Begins m scratch m₁) (hrun : (s.run targets).on m = (result, m'))
    (htest : (s.test scratch targets).on m₁ = (.ok ending, m₂))
    (hpublish : s.files.publish.on (stopLog.on m₂).2 = (.ok (), m₃)) : Left names m₃ m' := by
  rw [run_on hbegins, htest] at hrun
  simp only at hrun
  cases hfinish : (s.finish scratch ending).on m₂ with
  | mk answer m₄ =>
    have hleft : Left names m₃ m₄ := (finish_leaves hfinish).left hpublish
    rw [hfinish] at hrun
    cases answer with
    | error e =>
      cases hrun
      exact (Left.closeScratch scratch m₄ hleft).1
    | ok r =>
      cases hrun
      exact hleft

theorem run_published {ending : Ending} {result : Except Error Outcome} {m₃ : Machine}
    (hbegins : s.Begins m scratch m₁) (hrun : (s.run targets).on m = (result, m'))
    (hnames : s.files.Resolved) (hu : s.Undisturbed m₁ m')
    (htest : (s.test scratch targets).on m₁ = (.ok ending, m₂))
    (hpublish : s.files.publish.on (stopLog.on m₂).2 = (.ok (), m₃)) : ∃ text,
      m₂.files.Holds m₂.directory s.files.tmpLogFile (Text.encode text) ∧
      m'.files.Holds m'.directory s.files.logFile (Text.encode text) ∧
      (s.files.tmpLogFile ≠ s.files.logFile → m'.files.Vacant m'.directory s.files.tmpLogFile) := by
  have hleft : Left s.files.names m₃ m' := run_left hbegins hrun htest hpublish
  have hsince : Since s.files m₁ m₁ := .refl (hbegins.tended hu.apart)
  obtain ⟨new, hnew, htended⟩ := (test_ok (Since.lasting scratch.path (fun _ => True) hu.tools)
    (fun _ _ => trivial) hsince htest).tended hnames.distinct
  have hsame : m₃.changes = m₂.changes :=
    ((upkeep_changes s.Closes m₂.changes).publish s.files).leaves
      ((upkeep_changes s.Closes m₂.changes).stopLog m₂ rfl) hpublish
  obtain ⟨all, hall, hspares⟩ := hu.spared
  obtain ⟨hspared, hkept⟩ := hleft.spared (hsame.trans hnew) hall hspares
  obtain ⟨hdirectory, text, htended⟩ := htended hspared
  obtain ⟨k, offset, -, -, l, mode, hfile⟩ := htended.log
  obtain ⟨stopped, hstop, hshut, htold, -⟩ := htended.stop
  rw [hstop] at hpublish
  obtain ⟨htold', -, hpublished, -⟩ := LogFiles.publish_ok hshut.apart hnames.distinct hpublish
  obtain ⟨hholds, hvacant⟩ := hpublished _ hshut.holds
  have hstopped : stopped.directory = m₁.directory := htold.directory.trans hdirectory
  have hkept := hkept (htold'.directory.trans hstopped)
  have hlast : m'.directory = m₁.directory :=
    hleft.directory.trans (htold'.directory.trans hstopped)
  rw [hstopped] at hholds hvacant
  refine ⟨text, ⟨l, k, mode, hfile⟩, ?_, fun hne => ?_⟩
  · unfold FileTree.Holds
    rw [hlast, hkept _ (by simp [LogFiles.names])]
    exact hholds
  · unfold FileTree.Vacant
    rw [hlast, hkept _ s.files.tmpLogFile_mem]
    exact hvacant hne

theorem run_refused {e : Error} {result : Except Error Outcome} (hbegins : s.Begins m scratch m₁)
    (hrun : (s.run targets).on m = (result, m')) (hnames : s.files.Resolved)
    (hu : s.Undisturbed m₁ m') (htest : (s.test scratch targets).on m₁ = (.error e, m₂)) :
    s.settings.cleanOnly = false ∧
      ∃ before, s.report.on before = (.error e, m₂) ∧ ¬s.Keepable before := by
  have hleft : Left s.files.names m₂ m' := by
    rw [run_on hbegins, htest] at hrun
    cases hrun
    exact (Left.closeScratch scratch m₂ .refl).1
  obtain ⟨new, hnew, hrefused⟩ := test_refused (hbegins.tended hu.apart) hu.tools htest
  obtain ⟨all, hall, hspares⟩ := hu.spared
  obtain ⟨before, text, htended, hreport⟩ := hrefused (hleft.spared hnew hall hspares).1
  obtain ⟨hclean, hkeepable⟩ := report_refused htended hnames.distinct hreport
  exact ⟨hclean, before, hreport, hkeepable⟩

/-- A session never takes a directory away that was given to it. -/
theorem run_standing {p : Path} {l : Location} {result : Except Error Outcome}
    (hbegins : s.Begins m (.given p) m₁) (hrun : (s.run targets).on m = (result, m'))
    (hp : FileTree.checkPath p = .ok ()) (hl : m₁.files.HasDirectory l) (hsound : m₁.files.Sound)
    (htools : m₁.tools.Sound) : Standing p l m₁ m' := by
  have hlasting : Lasting (Scratch.given p).path (fun _ => True) (Standing p l m₁) :=
    Standing.lasting _ hp htools
  have htest : Standing p l m₁ ((s.test (.given p) targets).on m₁).2 :=
    (hlasting.test Standing.upkeep (fun _ _ => trivial) targets m₁ (.refl hsound hl)).1
  have hconcluding : Concluding s (.given p) (Standing p l m₁) :=
    ⟨Standing.upkeep, Job.Keeps.given _,
      fun _ => (Standing.starting (fun _ => True) htools).junitReport trivial⟩
  have hstanding := hconcluding.run hbegins htest
  rwa [hrun] at hstanding

/-- Whichever way a session ends that has begun its log, it leaves its files in this order. -/
theorem run_departs {result : Except Error Outcome} (hbegins : s.Begins m scratch m₁)
    (hrun : (s.run targets).on m = (result, m')) (hnames : s.files.Resolved) :
    s.Departs scratch targets m₁ m' := by
  refine ⟨fun hu _ _ _ htest hpublish => run_published hbegins hrun hnames hu htest hpublish,
    fun hu _ _ htest => run_refused hbegins hrun hnames hu htest, ?_, ?_⟩
  · rintro p rfl
    obtain ⟨m₃, closing, m₄, hclose, hlast⟩ := run_closes hbegins hrun
    exact ⟨m₄, hlast, closeScratch_gone hclose⟩
  · rintro p l mode rfl hfind hsound htools ⟨new, hnew, hleaves⟩
    obtain ⟨hp, -, hl⟩ := FileTree.findAt_ok hfind
    obtain ⟨new', hnew', hkept⟩ := (run_standing hbegins hrun hp ⟨mode, hl⟩ hsound htools).kept
    rw [hnew] at hnew'
    exact hkept (List.append_cancel_right hnew' ▸ hleaves)

end Session

namespace Trial

/-- A session whose log has a name of its own. -/
def hosting (clean : Bool) : Session :=
  { session with
    settings := { valgrind := true, cleanOnly := clean }
    files := LogFiles.resolve ⟨"/"⟩ "u" "p" 1 none ⟨"/"⟩ }

/-- The machine on which it has begun its log. -/
def opened (clean : Bool) (before : List (Location × Node)) : Machine :=
  ((hosting clean).openLog.on (machine before)).2

/-- The log is begun and published. All changes are those of tools, and those leave the files as they
are. -/
theorem hosting_runs : ((hosting true).openLog.on (machine [])).1 = .ok () ∧
    ((opened true []).files.isSound = true ∧ (opened true []).files.areApart
      (opened true []).directory (hosting true).files.names = true) ∧
    (opened true []).changes = [] ∧
    (opened true []).files.find (opened true []).directory ⟨"/"⟩ =
      .ok ([], .directory .newDirectory) ∧
    (((hosting true).test scratch [⟨"/a"⟩]).on (opened true [])).1.isOk = true ∧
    ((hosting true).files.publish.on (stopLog.on
      (((hosting true).test scratch [⟨"/a"⟩]).on (opened true [])).2).2).1.isOk = true ∧
    ∀ ch ∈ (((hosting true).run [⟨"/a"⟩]).on (machine [])).2.changes,
      ch.Spares (hosting true).files.names (opened true []).directory ∧
        ch.tool.isSome = true ∧ (ch.after.node? []).any Node.isDirectory = true := by
  unfold Change.Spares
  decide +kernel

theorem hosting_begins : (hosting true).Begins (machine []) scratch (opened true []) := by
  refine ⟨machine [], rfl, ?_⟩
  rw [opened]
  exact Job.on_of_result hosting_runs.1

theorem hosting_leaves {ch : Change}
    (h : ch ∈ (((hosting true).run [⟨"/a"⟩]).on (machine [])).2.changes) :
    ch.Leaves ⟨"/"⟩ (opened true []).directory [] := by
  obtain ⟨-, -, -, -, -, -, hchanges⟩ := hosting_runs
  obtain ⟨-, htool, hafter⟩ := hchanges ch h
  refine ⟨fun _ _ => ?_, fun hnone => ?_⟩
  · cases hn : ch.after.node? [] with
    | none =>
      rw [hn] at hafter
      cases hafter
    | some n =>
      rw [hn] at hafter
      cases n with
      | directory m => exact ⟨m, hn⟩
      | _ => cases hafter
  · rw [hnone] at htool
    cases htool

theorem hosting_undisturbed : (hosting true).Undisturbed (opened true [])
    (((hosting true).run [⟨"/a"⟩]).on (machine [])).2 := by
  obtain ⟨-, ⟨hsound, hapart⟩, huntouched, -, -, -, hchanges⟩ := hosting_runs
  refine ⟨FileTree.apart_of_areApart (FileTree.sound_of_isSound hsound) hapart, tools_sound [], _, ?_,
    fun ch h => (hchanges ch h).1⟩
  rw [huntouched, List.append_nil]

/-- The log is published, and the directory that was given for the runners stays. -/
theorem run_departs_hosting : ∃ result m' text,
    ((hosting true).run [⟨"/a"⟩]).on (machine []) = (result, m') ∧
      m'.files.Holds m'.directory (hosting true).files.logFile (Text.encode text) ∧
      m'.files.Vacant m'.directory (hosting true).files.tmpLogFile ∧ m'.files.HasDirectory [] := by
  obtain ⟨-, -, huntouched, hroot, htested, hpublished, -⟩ := hosting_runs
  obtain ⟨ending, m₂, htest⟩ := Job.on_of_isOk htested
  rw [htest] at hpublished
  obtain ⟨_, m₃, hpublish⟩ := Job.on_of_isOk hpublished
  have hundisturbed := hosting_undisturbed
  have hleaves : ∃ new, (((hosting true).run [⟨"/a"⟩]).on (machine [])).2.changes =
      new ++ (opened true []).changes ∧
        ∀ ch ∈ new, ch.Leaves ⟨"/"⟩ (opened true []).directory [] :=
    ⟨_, by rw [huntouched, List.append_nil], fun ch h => hosting_leaves h⟩
  cases hrun : ((hosting true).run [⟨"/a"⟩]).on (machine []) with
  | mk result m' =>
    rw [hrun] at hundisturbed hleaves
    have hdeparts := Session.run_departs hosting_begins hrun
      ⟨⟨"/"⟩, "u", "p", 1, none, ⟨"/"⟩, rfl⟩
    obtain ⟨text, -, hholds, hvacant⟩ :=
      hdeparts.published hundisturbed _ _ _ htest hpublish
    have hstands := hdeparts.given ⟨"/"⟩ [] .newDirectory rfl hroot hundisturbed.apart.sound
      (tools_sound []) hleaves
    exact ⟨result, m', text, rfl, hholds, hvacant (by decide), hstands⟩

/-- What keeps the summary from being written: a directory under its name. -/
def obstacle : List (Location × Node) := [(["u.p.pid1.log.summary"], .directory .newDirectory)]

/-- Where that session keeps its log, the place of its summary apart. -/
def logged : LogFiles :=
  { (hosting false).files with tmpSummaryFile := (hosting false).files.summaryFile }

/-- The machine after the tests, before their error is reported. -/
def obstructed : Machine :=
  (((hosting false).execute scratch [⟨"/a"⟩] []).on (opened false obstacle)).2

/-- The log is begun and the tests fail. Of the log that is then told of it nothing is refused but its
summary. -/
theorem obstructed_fails : ((hosting false).openLog.on (machine obstacle)).1 = .ok () ∧
    ((opened false obstacle).files.isSound = true ∧ (opened false obstacle).files.areApart
      (opened false obstacle).directory logged.names = true) ∧
    (((hosting false).execute scratch [⟨"/a"⟩] []).on (opened false obstacle)).1 =
      .error (.fatal .noValgrind) ∧
    (∀ ch ∈ obstructed.changes, ch.Spares logged.names (opened false obstacle).directory) ∧
    (obstructed.files.read obstructed.directory logged.tmpLogFile).isOk = true ∧
    (obstructed.files.openFile obstructed.directory logged.tmpLogFile .append .newFile).isOk = true ∧
    (obstructed.files.openFile obstructed.directory (hosting false).files.tmpSummaryFile .afresh
      .newFile).isOk = false ∧
    obstructed.isFile (hosting false).files.tmpLogFile = true ∧
    obstructed.isThere (hosting false).files.logFile = false := by
  unfold Change.Spares
  decide +kernel

theorem obstacle_begins :
    (hosting false).Begins (machine obstacle) scratch (opened false obstacle) := by
  refine ⟨machine obstacle, rfl, ?_⟩
  rw [opened]
  exact Job.on_of_result obstructed_fails.1

/-- The log is in good order for all but its summary, and is told that the tests have failed. -/
theorem obstructed_note : ∃ before text,
    (note ("[Error: " ++ Fatal.noValgrind.message ++ "]")).on obstructed = (.ok (), before) ∧
      Tended logged before text ∧ before.files.outline = obstructed.files.outline ∧
      before.directory = obstructed.directory := by
  obtain ⟨-, ⟨hsound, hapart⟩, hfails, hspares, -⟩ := obstructed_fails
  obtain ⟨_, -, hlog⟩ := obstacle_begins
  obtain ⟨_, _, -, hcreate⟩ := Job.bind_ok hlog
  have htended : Tended logged (opened false obstacle) "" := createLog_ok (f := logged) hcreate
    (FileTree.apart_of_areApart (FileTree.sound_of_isSound hsound) hapart)
  have hlasting : Lasting scratch.path (fun _ => True) (Since logged (opened false obstacle)) :=
    Since.lasting scratch.path _ (tools_sound obstacle)
  have hexecute : ((hosting false).execute scratch [⟨"/a"⟩] []).on (opened false obstacle) =
      (.error (.fatal .noValgrind), obstructed) := by
    rw [obstructed]
    exact Job.on_of_result hfails
  have hsince : Since logged (opened false obstacle) obstructed :=
    (hlasting.execute (fun _ _ => trivial) _ _).leaves (.refl htended) hexecute
  obtain ⟨told, new, -, hnew, htended⟩ := hsince.kept
  obtain rfl : obstructed.changes = new := hnew.trans (List.append_nil _)
  obtain ⟨before, hnote, hbefore, htold, houtline, -⟩ :=
    (htended hspares).note ("[Error: " ++ Fatal.noValgrind.message ++ "]")
  exact ⟨before, _, hnote, hbefore, houtline, htold.directory⟩

/-- Where the summary cannot be written the log stays under the name of the process. -/
theorem obstacle_unpublished : ∃ e m',
    (hosting false).Begins (machine obstacle) scratch (opened false obstacle) ∧
      ((hosting false).run [⟨"/a"⟩]).on (machine obstacle) = (.error e, m') ∧
      m'.isFile (hosting false).files.tmpLogFile = true ∧
      m'.isThere (hosting false).files.logFile = false := by
  obtain ⟨-, -, hfails, -, hread, hreopen, hsummary, hfile, hthere⟩ := obstructed_fails
  obtain ⟨before, text, hnote, hbefore, houtline, hdirectory⟩ := obstructed_note
  have hopens : ∀ p how, (before.files.openFile before.directory p how .newFile).isOk =
      (obstructed.files.openFile obstructed.directory p how .newFile).isOk := by
    intro p how
    rw [← FileTree.openFile_outline, houtline, FileTree.openFile_outline, hdirectory]
  have hread' : (before.files.read before.directory logged.tmpLogFile).isOk := by
    rw [← FileTree.read_outline, houtline, FileTree.read_outline, hdirectory]
    exact hread
  obtain ⟨e, m', hreport, hsame, hstays⟩ := Session.report_unwritten (s := hosting false) hbefore rfl
    rfl hread' ((hopens _ _).trans hreopen) ((hopens _ _).trans hsummary)
  have hwork : ((hosting false).work scratch [.file ⟨"/a"⟩]).on (opened false obstacle) =
      (.error (.fatal .noValgrind), obstructed) := by
    rw [obstructed]
    exact Job.on_of_result hfails
  have houtcome : (outcome ((hosting false).work scratch [.file ⟨"/a"⟩])).on
      (opened false obstacle) = (.ok (.error (.fatal .noValgrind)), obstructed) := by
    rw [Job.on_outcome, hwork]
  have htest : ((hosting false).test scratch [⟨"/a"⟩]).on (opened false obstacle) =
      (.error e, m') := by
    have hsort : ((hosting false).sortTargets [⟨"/a"⟩]).on (opened false obstacle) =
        (.ok [.file ⟨"/a"⟩], opened false obstacle) := rfl
    rw [Session.test_eq, Job.on_bind_ok hsort, Session.testSorted_eq, if_neg (by decide),
      Job.on_bind_ok houtcome, Session.answer, Job.on_bind_ok hnote, Job.on_bind, hreport]
  refine ⟨e, m', obstacle_begins, ?_, ?_, ?_⟩
  · rw [Session.run_on obstacle_begins, htest]
    rfl
  · rw [Machine.isFile, ← FileTree.isFile_outline, hsame, houtline, FileTree.isFile_outline, hstays,
      hdirectory]
    exact hfile
  · rw [Machine.isThere, ← FileTree.isThere_outline, hsame, houtline, FileTree.isThere_outline,
      hstays, hdirectory]
    exact hthere

end Trial

end Regression
