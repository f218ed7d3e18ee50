import Regression.Proofs.Course
import Regression.Proofs.Keeps
import Regression.Proofs.Notes

namespace Regression

/-- What a session tells its log once its tests have ended. -/
inductive Session.Closes (s : Session) : String → Prop where
  | date (stamp : String) : s.Closes ("[Done with tests - " ++ stamp ++ "]")
  | place : s.Closes ("[Log file: " ++ s.files.logFile.text ++ " ]")
  | blank : s.Closes ""
  | skipped (n : Nat) : s.Closes ("[Skipped " ++ toString n ++ " tests with .stdin input]")
  | summary (summary : Summary) (date : String) : s.Closes (summary.render date)
  | cleaned : s.Closes "[Summary: CLEAN ONLY]"

/-- What keeping the log and its summary, with messages as `B` allows, does not take away from a
machine. -/
structure Upkeep (B : String → Prop) (P : Machine → Prop) : Prop where
  console : ∀ m text, P m → P { m with console := text }
  note : ∀ m text, B text → P m → P ((note text).on m).2
  log : ∀ m log, P m → P { m with log }
  opening : ∀ m p how files hd, m.files.openFile m.directory p how .newFile = .ok (files, hd) →
    P m → P { m with files }
  writing : ∀ m p bytes files, m.files.writeFile m.directory p bytes = .ok files →
    P m → P { m with files }
  copying : ∀ m source target files, m.files.copyFile m.directory source target = .ok files →
    P m → P { m with files }
  removal : ∀ m p files, m.files.removeFile m.directory p = .ok files → P m → P { m with files }

namespace Upkeep

variable {B : String → Prop} {P : Machine → Prop} {s : Session}

theorem stays_note (h : Upkeep B P) {text : String} (ht : B text) :
    (Regression.note text).Stays P :=
  fun m hm => ⟨h.note m text ht hm, fun _ _ => trivial⟩

theorem say (h : Upkeep B P) (line : String) : (Regression.say line).Stays P :=
  fun m hm => h.console m _ hm

theorem stays_keep {change : FileTree → Location → Except Fault FileTree}
    (hc : ∀ m files, change m.files m.directory = .ok files → P m → P { m with files }) :
    (keep change).Stays P := by
  intro m hm
  refine ⟨?_, fun _ _ => trivial⟩
  rw [keep_on]
  cases hfiles : change m.files m.directory with
  | error fault => exact hm
  | ok files => exact hc m files hfiles hm

theorem stopLog (h : Upkeep B P) : Regression.stopLog.Stays P := by
  intro m hm
  cases hlog : m.log with
  | file l =>
    rw [stopLog_on_file hlog]
    exact h.log m _ hm
  | memory messages =>
    rw [stopLog_on_memory hlog]
    exact hm

theorem openLogFile (h : Upkeep B P) (p : Path) (how : FileTree.Opening) :
    (Regression.openLogFile p how).Stays P := by
  intro m hm
  refine ⟨?_, fun _ _ => trivial⟩
  unfold Regression.openLogFile
  rw [Job.on_bind_ok (Job.on_get m)]
  cases hopen : m.files.openFile m.directory p how .newFile with
  | error fault => exact hm
  | ok opened => exact h.opening m p how opened.1 opened.2 hopen hm

theorem createLog (h : Upkeep B P) (p : Path) (echo : Bool) : (Regression.createLog p echo).Stays P :=
  (h.openLogFile p .afresh).after fun _ => Job.Keeps.modify fun m hm => h.log m _ hm

theorem restartLog (h : Upkeep B P) : Regression.restartLog.Stays P := by
  unfold Regression.restartLog
  refine Job.Keeps.get.after fun m => ?_
  split
  · exact (h.openLogFile _ .append).after fun _ => Job.Keeps.modify fun m hm => h.log m _ hm
  · exact Job.Keeps.given _

theorem prepare (h : Upkeep B P) (f : LogFiles) : f.prepare.Stays P := by
  unfold LogFiles.prepare
  extract_lets directory last rest
  have hremove : ∀ p : Path, (keep fun t cwd => t.removeFile cwd p).Stays P := fun p =>
    stays_keep fun m files hok => h.removal m p files hok
  have hlast : ∀ u, (last u).Stays P := by
    intro u
    refine Job.Keeps.get.after fun m => ?_
    split
    · exact hremove _
    · exact Job.Keeps.given _
  have hrest : ∀ u, (rest u).Stays P := by
    intro u
    refine Job.Keeps.get.after fun m => ?_
    split
    · refine (Job.Keeps.lift (h.say _)).after fun _ => ?_
      refine (Job.Keeps.lift (h.say _)).after fun _ => ?_
      exact (hremove _).after hlast
    · exact hlast ()
  refine Job.Keeps.get.after fun m => ?_
  split
  · exact (Job.Keeps.throw _ fun _ => True).after hrest
  · exact hrest ()

theorem openLog (h : Upkeep B P) : s.openLog.Stays P :=
  (h.prepare s.files).after fun _ => h.createLog _ true

theorem readText (p : Path) : (Regression.readText p).Stays P := by
  unfold Regression.readText
  refine Job.Keeps.get.after fun m => ?_
  split
  · exact Job.Keeps.given _
  · exact Job.Keeps.throw _ _

theorem summarize (h : Upkeep B P) (hB : ∀ text, s.Closes text → B text) :
    s.summarize.Stays P := by
  unfold Session.summarize
  refine Job.Keeps.get.after fun m => ?_
  refine (h.stays_note (hB _ (.date _))).after fun _ => ?_
  refine (h.stays_note (hB _ .place)).after fun _ => (h.stays_note (hB _ .blank)).after fun _ => ?_
  refine (Job.Keeps.lift h.stopLog).after fun _ => (readText _).after fun text => ?_
  refine Job.Keeps.whether (h.stays_note (hB _ (.skipped _))) ?_
  refine h.restartLog.after fun _ => (h.stays_note (hB _ (.summary _ _))).after fun _ => ?_
  refine (stays_keep fun m files hok => h.writing m _ _ files hok).after fun _ => ?_
  exact Job.Keeps.given _

theorem report (h : Upkeep B P) (hB : ∀ text, s.Closes text → B text) : s.report.Stays P := by
  unfold Session.report
  have hend : ∀ summary : Option Summary, Job.Stays P (do noteBlank; return summary) :=
    fun _ => (h.stays_note (hB _ .blank)).after fun _ => Job.Keeps.given _
  split
  · exact (h.stays_note (hB _ .cleaned)).after fun _ => (Job.Keeps.given _).after hend
  · rw [map_eq_pure_bind, bind_assoc]
    exact (h.summarize hB).after fun _ => (Job.Keeps.given _).after hend

theorem answer (h : Upkeep s.Closes P) (hnote : ∀ text, (Regression.note text).Stays P)
    (result : Except Error Unit) : (s.answer result).Stays P := by
  have hreport : s.report.Stays P := h.report fun _ ht => ht
  unfold Session.answer
  split
  · exact hreport.after fun _ => Job.Keeps.given _
  · exact (hnote _).after fun _ => hreport.after fun _ => Job.Keeps.given _
  · exact Job.Keeps.given _

theorem publishOne (h : Upkeep B P) (source target : Path) :
    (LogFiles.publishOne source target).Stays P := by
  unfold LogFiles.publishOne
  refine Job.Keeps.get.after fun m => ?_
  split
  · refine (stays_keep fun m files hok => h.copying m source target files hok).after fun _ => ?_
    exact stays_keep fun m files hok => h.removal m source files hok
  · exact Job.Keeps.given _

theorem publish (h : Upkeep B P) (f : LogFiles) : f.publish.Stays P :=
  (h.publishOne _ _).after fun _ => h.publishOne _ _

end Upkeep

namespace Lasting

variable {A : Command → Prop} {P : Machine → Prop} {s : Session} {scratch : Scratch}

/-- What neither a step of the tests nor keeping the log takes away holds when the tests have
ended. -/
theorem testSorted (h : Lasting scratch.path A P) (hu : Upkeep s.Closes P)
    (hA : Grants A s.settings) (targets : List Path) (sorted : List Target) :
    (s.testSorted scratch targets sorted).Stays P := by
  rw [Session.testSorted_eq]
  have hwork : (s.work scratch sorted).Stays P := h.execute hA _ _
  exact Job.Keeps.either (Job.Keeps.given _) (hwork.outcome.after (hu.answer h.stays_note))

theorem test (h : Lasting scratch.path A P) (hu : Upkeep s.Closes P) (hA : Grants A s.settings)
    (targets : List Path) : (s.test scratch targets).Stays P := by
  rw [Session.test_eq]
  exact (h.sortTargets targets).after (h.testSorted hu hA targets)

end Lasting

/-- Closing the runners' directory may take away a tree. -/
theorem Session.closeScratch_stays {P : Machine → Prop}
    (h : ∀ m p files, m.files.removeDirectories m.directory p = .ok files → P m →
      P { m with files, changes := { tool := none, before := m.files, after := files } :: m.changes })
    (scratch : Scratch) : (Session.closeScratch scratch).Stays P := by
  cases scratch with
  | given p => exact Job.Keeps.given _
  | owned p =>
    intro m hm
    refine ⟨?_, fun _ _ => trivial⟩
    unfold Session.closeScratch
    rw [editOr_on]
    cases hfiles : m.files.removeDirectories m.directory p with
    | error fault => exact hm
    | ok files => exact h m p files hfiles hm

/-- Opening the runners' directory may make a directory, with a name of its own. -/
theorem Session.openScratch_stays {P : Machine → Prop} {s : Session}
    (hcount : ∀ m, P m → P { m with scratches := m.scratches + 1 })
    (h : ∀ m p files, m.files.makeDirectory m.directory p = .ok files → P m →
      P { m with files, changes := { tool := none, before := m.files, after := files } :: m.changes }) :
    s.openScratch.Stays P := by
  have hmake : ∀ raise p, (editOr raise fun t cwd => t.makeDirectory cwd p).Stays P := by
    intro raise p m hm
    refine ⟨?_, fun _ _ => trivial⟩
    rw [editOr_on]
    cases hfiles : m.files.makeDirectory m.directory p with
    | error fault => exact hm
    | ok files => exact h m p files hfiles hm
  unfold Session.openScratch
  split
  · exact Job.Keeps.given _
  · intro m hm
    rw [Job.on_bind_ok (Job.on_get m)]
    extract_lets path
    rw [Job.on_bind_ok (Job.on_set m { m with scratches := m.scratches + 1 })]
    exact ((hmake _ _).after fun _ => Job.Keeps.given _) _ (hcount m hm)

theorem Starting.junitReport {A : Command → Prop} {P : Machine → Prop} {s : Session}
    (h : Starting A P) (hc : A s.junitCommand) : s.junitReport.Stays P := by
  unfold Session.junitReport
  refine (h.say _).bind fun _ => (h.capture hc).bind fun report => ?_
  split
  · exact h.say _
  · exact Effect.Stays.pure _

/-- What a session does not take away from a machine once its tests have ended. -/
structure Concluding (s : Session) (scratch : Scratch) (P : Machine → Prop) : Prop where
  upkeep : Upkeep s.Closes P
  closing : (Session.closeScratch scratch).Stays P
  converting : s.settings.junitXml → s.junitReport.Stays P

namespace Concluding

variable {P : Machine → Prop} {s : Session} {scratch : Scratch} {m m₁ : Machine}

theorem report (h : Concluding s scratch P) : s.report.Stays P := h.upkeep.report fun _ ht => ht

theorem cleanUp (h : Concluding s scratch P) : (s.cleanUp scratch).Stays P :=
  (h.upkeep.publish s.files).after fun _ => h.closing

theorem finish (h : Concluding s scratch P) (ending : Ending) :
    (s.finish scratch ending).Stays P := by
  unfold Session.finish
  refine (Job.Keeps.lift h.upkeep.stopLog).after fun _ => ?_
  split
  · exact h.cleanUp.after fun _ => Job.Keeps.given _
  · refine h.cleanUp.after fun _ => ?_
    split
    · next hjunit =>
      exact (Job.Keeps.lift (h.converting hjunit)).after fun _ => Job.Keeps.given _
    · exact Job.Keeps.given _
  · exact h.cleanUp.outcome.after fun _ => Job.Keeps.throw _ _

/-- What holds when the tests have ended holds when the session ends. -/
theorem run (h : Concluding s scratch P) {targets : List Path} (hbegins : s.Begins m scratch m₁)
    (htest : P ((s.test scratch targets).on m₁).2) : P ((s.run targets).on m).2 := by
  rw [Session.run_on hbegins]
  cases hended : (s.test scratch targets).on m₁ with
  | mk result m₂ =>
    rw [hended] at htest
    cases result with
    | error e => exact (h.closing m₂ htest).1
    | ok ending =>
      have hfinish := (h.finish ending m₂ htest).1
      simp only
      cases hout : (s.finish scratch ending).on m₂ with
      | mk answer m₃ =>
        rw [hout] at hfinish
        cases answer with
        | error e => exact (h.closing m₃ hfinish).1
        | ok r => exact hfinish

end Concluding

/-- Keeping the log is not a change that counts. -/
theorem upkeep_changes (B : String → Prop) (changes : List Change) :
    Upkeep B fun m => m.changes = changes := by
  refine ⟨fun _ _ h => h, ?_, fun _ _ h => h, fun _ _ _ _ _ _ h => h, fun _ _ _ _ _ h => h,
    fun _ _ _ _ _ h => h, fun _ _ _ _ h => h⟩
  intro m text _ h
  obtain ⟨files, log, console, hnote⟩ := note_records m text
  rw [hnote]
  exact h

end Regression
