import Regression.Proofs.Leftovers
import Regression.Proofs.Neighbours
import Regression.Proofs.Schedules

namespace Regression

open Text (Bytes)

variable {t t' : FileTree} {cwd cwd' : Location} {names : List Path} {p source target : Path}
  {o old : Option Bytes} {m m' : Machine}

namespace FileTree

/-- What lies under a name: a file that holds these bytes, or nothing. -/
def Lies (t : FileTree) (cwd : Location) (p : Path) : Option Bytes → Prop
  | none => t.Vacant cwd p
  | some bytes => t.Holds cwd p bytes

theorem Lies.same (h : t.Lies cwd p o) (hsame : t'.spot cwd' p = t.spot cwd p) :
    t'.Lies cwd' p o := by
  cases o with
  | none => exact ⟨h.choose, hsame.trans h.choose_spec⟩
  | some bytes =>
    obtain ⟨l, k, mode, hspot⟩ := h
    exact ⟨l, k, mode, hsame.trans hspot⟩

theorem Lies.isFile (h : t.Lies cwd p o) : t.isFile cwd p = o.isSome := by
  cases o with
  | none =>
    obtain ⟨l, hspot⟩ := h
    simp [FileTree.isFile, find_of_spot_none hspot]
  | some bytes =>
    obtain ⟨l, k, mode, hspot⟩ := h
    simp [FileTree.isFile, find_of_spot hspot, Node.isFile]

/-- What a file holds under a name, where one is there. -/
def under (t : FileTree) (cwd : Location) (p : Path) : Option Bytes :=
  match t.spot cwd p with
  | .ok (_, some (.file _ _ bytes)) => some bytes
  | _ => none

theorem Lies.under (h : t.Lies cwd p o) : t.under cwd p = o := by
  cases o with
  | none =>
    obtain ⟨l, hspot⟩ := h
    rw [FileTree.under, hspot]
  | some bytes =>
    obtain ⟨l, k, mode, hspot⟩ := h
    rw [FileTree.under, hspot]

theorem Apart.lies (h : t.Apart cwd names) (hp : p ∈ names) : t.Lies cwd p (t.under cwd p) := by
  obtain ⟨l, o, hspot, hplain⟩ := h.plain p hp
  rw [FileTree.under, hspot]
  rcases hplain.cases with rfl | ⟨k, mode, bytes, rfl⟩
  · exact ⟨l, hspot⟩
  · exact ⟨l, k, mode, hspot⟩

/-- From where a route starts is all that counts of the directory. -/
theorem spot_origin (h : p.origin cwd' = p.origin cwd) : t.spot cwd' p = t.spot cwd p := by
  simp only [spot, locate_eq, h]

theorem Apart.origin (h : t.Apart cwd names) (hsame : ∀ p ∈ names, p.origin cwd' = p.origin cwd) :
    t.Apart cwd' names := by
  have hspot : ∀ p ∈ names, t.spot cwd' p = t.spot cwd p := fun p hp => spot_origin (hsame p hp)
  refine ⟨h.sound, ?_, ?_, ?_⟩
  · intro p hp
    rw [hspot p hp]
    exact h.plain p hp
  · intro p hp p' hp'
    rw [hspot p hp, hspot p' hp']
    exact h.places p hp p' hp'
  · intro p hp p' hp'
    rw [hspot p hp, hspot p' hp']
    exact h.serials p hp p' hp'

end FileTree

/-- What is made of one of some names that are apart: `o` lies there, and the others lead where they
led. -/
structure Touched (names : List Path) (p : Path) (o : Option Bytes) (m m' : Machine) : Prop where
  directory : m'.directory = m.directory
  apart : m'.files.Apart m.directory names
  here : m'.files.Lies m.directory p o
  others : ∀ p' ∈ names, p' ≠ p → m'.files.spot m.directory p' = m.files.spot m.directory p'

namespace Touched

theorem nothing (h : m.files.Apart m.directory names) (hlies : m.files.Lies m.directory p o) :
    Touched names p o m m := ⟨rfl, h, hlies, fun _ _ _ => rfl⟩

theorem wrote {k : Nat} {bytes : Bytes} (hdirectory : m'.directory = m.directory)
    (h : m.files.Wrote m'.files m.directory names p k bytes) :
    Touched names p (some bytes) m m' := by
  obtain ⟨l, mode, hspot⟩ := h.here
  exact ⟨hdirectory, h.apart, ⟨l, k, mode, hspot⟩, h.others⟩

end Touched

namespace LogFiles

/-- The first half of publishing a file. -/
def copyOne (source target : Path) : Job Unit := do
  if !source.same target && (← get).isFile source then
    keep fun t cwd => t.copyFile cwd source target

/-- The second half. -/
def dropOne (source target : Path) : Job Unit := do
  if !source.same target && (← get).isFile source then
    keep fun t cwd => t.removeFile cwd source

theorem copyOne_on (hother : source.same target = false) (m : Machine) :
    (copyOne source target).on m = if m.isFile source then
      (keep fun t cwd => t.copyFile cwd source target).on m else (.ok (), m) := by
  unfold copyOne
  rw [Job.on_bind_ok (Job.on_get m), hother, Bool.not_false, Bool.true_and]
  split <;> rfl

theorem dropOne_on (hother : source.same target = false) (m : Machine) :
    (dropOne source target).on m = (clear source).on m := by
  unfold dropOne
  rw [Job.on_bind_ok (Job.on_get m), hother, Bool.not_false, Bool.true_and, clear_on]
  split <;> rfl

theorem clear_touches (h : m.files.Apart m.directory names) (hp : p ∈ names)
    (hok : (clear p).on m = (.ok (), m')) : Touched names p none m m' ∧ m'.log = m.log := by
  have hcleared := clear_ok h hp hok
  have hdirectory := hcleared.telling.directory
  refine ⟨⟨hdirectory, hdirectory ▸ hcleared.apart, hcleared.vacant, hcleared.others⟩, ?_⟩
  rw [clear_on] at hok
  split at hok
  · obtain ⟨files, -, rfl⟩ := keep_ok hok
    rfl
  · cases hok
    rfl

/-- A copy takes the place of what lay there; where there is nothing to copy, that stays. -/
theorem copyOne_touches (h : m.files.Apart m.directory names) (hs : source ∈ names)
    (ht : target ∈ names) (hother : source.same target = false)
    (hsource : m.files.Lies m.directory source o) (htarget : m.files.Lies m.directory target old)
    (hok : (copyOne source target).on m = (.ok (), m')) :
    Touched names target (o.or old) m m' ∧ m'.log = m.log := by
  rw [copyOne_on hother, Machine.isFile, hsource.isFile] at hok
  cases o with
  | none =>
    cases hok
    exact ⟨.nothing h htarget, rfl⟩
  | some bytes =>
    obtain ⟨files, hcopied, rfl⟩ := keep_ok hok
    obtain ⟨l, k, mode, hspot⟩ := hsource
    obtain ⟨k', hwrote⟩ := h.copyFile hs ht (Path.ne_of_same hother) hspot hcopied
    exact ⟨.wrote rfl hwrote, rfl⟩

/-- Publishing a file is its two halves, one after the other. -/
theorem publishOne_halves (h : m.files.Apart m.directory names) (hs : source ∈ names)
    (ht : target ∈ names) (hother : source.same target = false) :
    (publishOne source target).on m =
      (copyOne source target >>= fun _ => dropOne source target).on m := by
  have hsource := h.lies hs
  have hcopy := copyOne_on hother m
  unfold publishOne
  rw [Job.on_bind_ok (Job.on_get m), hother, Bool.not_false, Bool.true_and, Job.on_bind, hcopy]
  split
  · next hfile =>
    rw [if_pos hfile] at hcopy
    rw [Job.on_bind]
    rcases hkept : (keep fun t cwd => t.copyFile cwd source target).on m with ⟨_ | _, m₁⟩
    · rfl
    · obtain ⟨htouched, -⟩ := copyOne_touches h hs ht hother hsource (h.lies ht) (hcopy.trans hkept)
      have hkept := htouched.others source hs (Path.ne_of_same hother)
      have hthere : m₁.isFile source = true := by
        rw [Machine.isFile, htouched.directory, (hsource.same hkept).isFile, ← hsource.isFile]
        exact hfile
      simp only
      rw [dropOne_on hother, clear_on, if_pos hthere]
  · next hfile =>
    simp only
    rw [dropOne_on hother, clear_on, if_neg hfile]
    rfl

end LogFiles

namespace Recording

variable {isOpen : Bool} {text : String}

theorem holds (h : Recording p cwd isOpen text m) : m.files.Holds cwd p (Text.encode text) := by
  obtain ⟨k, _, _, -, -, l, mode, hfile⟩ := h.log
  exact ⟨l, k, mode, hfile⟩

/-- A log stays in use where nothing becomes of its file. -/
theorem same (h : Recording p cwd isOpen text m) (hlog : m'.log = m.log)
    (hdirectory : m'.directory = m.directory) (hspot : m'.files.spot cwd p = m.files.spot cwd p) :
    Recording p cwd isOpen text m' := by
  obtain ⟨k, offset, echo, hoffset, hopen, l, mode, hfile⟩ := h.log
  refine ⟨hdirectory.trans h.directory,
    ⟨k, offset, echo, hoffset, hlog.trans hopen, l, mode, hspot.trans hfile⟩, ?_⟩
  cases hopened : m.files.openFile cwd p .append .newFile with
  | error fault =>
    have hreopens := h.reopens
    rw [hopened] at hreopens
    cases hreopens
  | ok opened =>
    have hwhole := FileTree.openFile_whole hopened
    rw [FileTree.openFile_isOk hwhole (hspot.trans hfile), ← FileTree.openFile_isOk hwhole hfile]
    exact h.reopens

/-- What one step makes of the file of a log. -/
theorem step_files (h : Recording p cwd isOpen text m) (step : LogStep)
    (hrun : step.run.on m = (.ok (), m')) : m'.files = m.files ∨ ∃ k g l mode bytes,
      m.files.spot cwd p = .ok (l, some (.file k mode bytes)) ∧
        m'.files = m.files.mapContents k g := by
  obtain ⟨k, offset, echo, hoffset, hlog, l, mode, hfile⟩ := h.log
  have hnote : ∀ message, (Regression.note message).on m = (.ok (), m') →
      m'.files = m.files ∨ ∃ k g l mode bytes,
        m.files.spot cwd p = .ok (l, some (.file k mode bytes)) ∧
          m'.files = m.files.mapContents k g := by
    intro message hnoted
    rw [note_on_file hlog] at hnoted
    cases isOpen with
    | false =>
      cases hnoted
      exact .inl rfl
    | true =>
      obtain ⟨g, offset', hwrite, -⟩ :=
        m.files.write_end k hoffset (Text.encode (Text.trimEnd message ++ "\n"))
      simp only [↓reduceIte, hwrite] at hnoted
      cases hnoted
      exact .inr ⟨k, g, l, mode, _, hfile, rfl⟩
  cases step with
  | message message => exact hnote message hrun
  | blank => exact hnote "" hrun
  | stop =>
    change Job.on (liftM stopLog) m = _ at hrun
    rw [Job.on_lift, stopLog_on_file hlog] at hrun
    cases hrun
    exact .inl rfl
  | restart =>
    obtain rfl := h.directory
    change restartLog.on m = _ at hrun
    unfold restartLog at hrun
    rw [Job.on_bind_ok (Job.on_get m), hlog] at hrun
    cases isOpen with
    | true =>
      cases hrun
      exact .inl rfl
    | false =>
      obtain ⟨hd, m₁, hopen, hrun⟩ := Job.bind_ok hrun
      obtain ⟨files, hfiles, rfl⟩ := openLogFile_ok hopen
      cases hrun
      exact .inl (FileTree.Apart.reopenFile hfile hfiles).1

theorem step_touches (h : Recording p m.directory isOpen text m)
    (hapart : m.files.Apart m.directory names) (hp : p ∈ names) (step : LogStep)
    (hrun : step.run.on m = (.ok (), m')) :
    Touched names p (some (Text.encode (text ++ written (step.adds isOpen)))) m m' ∧
      Recording p m.directory (step.leavesOpen isOpen) (text ++ written (step.adds isOpen)) m' := by
  obtain ⟨m'', hrun', hnext, -⟩ := h.step step
  obtain rfl : m' = m'' := congrArg Prod.snd (hrun.symm.trans hrun')
  refine ⟨?_, hnext⟩
  rcases h.step_files step hrun with hsame | ⟨k, g, l, mode, bytes, hfile, hwritten⟩
  · exact ⟨hnext.directory, hsame ▸ hapart, hnext.holds, fun _ _ _ => by rw [hsame]⟩
  · have hwrote := hapart.mapContents hp hfile g
    rw [← hwritten] at hwrote
    exact ⟨hnext.directory, hwrote.apart, hnext.holds, hwrote.others⟩

end Recording

/-- A log that is begun among names that are apart. -/
theorem createLog_touches (h : m.files.Apart m.directory names) (hp : p ∈ names)
    (hok : (createLog p true).on m = (.ok (), m')) :
    Touched names p (some []) m m' ∧ Recording p m.directory true "" m' := by
  have hplain : ∀ l room, m.files.spot m.directory p ≠ .ok (l, some (.device room)) := by
    intro l room hspot
    obtain ⟨l', o, hspot', hplain⟩ := h.plain p hp
    rw [hspot] at hspot'
    cases hspot'
    cases hplain _ rfl
  have hrecording := Recording.created hok hplain
  obtain ⟨files, hd, hopened, rfl⟩ := createLog_opens hok
  obtain ⟨k, -, hwrote⟩ := h.openFile hp hopened
  exact ⟨⟨rfl, hwrote.apart, hrecording.holds, hwrote.others⟩, hrecording⟩

namespace FileStep

/-- What a session does with its files, one operation at a time. -/
def run (f : LogFiles) : FileStep → Job Unit
  | clearLog => LogFiles.clear f.logFile
  | clearSummary => LogFiles.clear f.summaryFile
  | create => createLog f.tmpLogFile true
  | log step => step.run
  | summarize text => keep fun t cwd => t.writeFile cwd f.tmpSummaryFile (Text.encode text)
  | copyLog => LogFiles.copyOne f.tmpLogFile f.logFile
  | dropLog => LogFiles.dropOne f.tmpLogFile f.logFile
  | copySummary => LogFiles.copyOne f.tmpSummaryFile f.summaryFile
  | dropSummary => LogFiles.dropOne f.tmpSummaryFile f.summaryFile

def runAll (f : LogFiles) : List FileStep → Job Unit
  | [] => return
  | step :: steps => do
    step.run f
    runAll f steps

/-- A session begins its log so. What is said of a log that is removed reaches the console alone. -/
theorem openLog_steps {s : Session} (hok : s.openLog.on m = (.ok (), m')) : ∃ console,
    (runAll s.files opening).on { m with console } = (.ok (), m') := by
  obtain ⟨_, m₂, hprepare, hcreate⟩ := Job.bind_ok hok
  obtain ⟨console, m₁, hlog, hsummary⟩ := LogFiles.prepare_ok hprepare
  refine ⟨console, ?_⟩
  change (LogFiles.clear s.files.logFile >>= fun _ => LogFiles.clear s.files.summaryFile >>= fun _ =>
    createLog s.files.tmpLogFile true >>= fun _ => pure ()).on _ = _
  rw [Job.on_bind_ok hlog, Job.on_bind_ok hsummary, Job.on_bind_ok hcreate, Job.on_pure]

/-- A session publishes so. -/
theorem publish_steps {f : LogFiles} (h : m.files.Apart m.directory f.names)
    (hlog : f.tmpLogFile.same f.logFile = false)
    (hsummary : f.tmpSummaryFile.same f.summaryFile = false) :
    f.publish.on m = (runAll f closing).on m := by
  have hall : runAll f closing =
      (LogFiles.copyOne f.tmpLogFile f.logFile >>= fun _ =>
        LogFiles.dropOne f.tmpLogFile f.logFile) >>= fun _ =>
      LogFiles.copyOne f.tmpSummaryFile f.summaryFile >>= fun _ =>
        LogFiles.dropOne f.tmpSummaryFile f.summaryFile := by
    simp [runAll, closing, FileStep.run, bind_assoc]
  have hmem : ∀ p ∈ [f.logFile, f.tmpLogFile, f.summaryFile, f.tmpSummaryFile], p ∈ f.names :=
    fun _ hp => hp
  have hfirst := LogFiles.publishOne_halves h (hmem f.tmpLogFile (by simp))
    (hmem f.logFile (by simp)) hlog
  rw [hall, LogFiles.publish, Job.on_bind, Job.on_bind, ← hfirst]
  cases hdone : (LogFiles.publishOne f.tmpLogFile f.logFile).on m with
  | mk answer m₁ =>
    cases answer with
    | error e => rfl
    | ok u =>
      obtain ⟨htold, hapart, -⟩ := LogFiles.publishOne_ok h (hmem f.tmpLogFile (by simp))
        (hmem f.logFile (by simp)) (.inr hlog) hdone
      rw [← htold.directory] at hapart
      exact LogFiles.publishOne_halves hapart (hmem f.tmpSummaryFile (by simp))
        (hmem f.summaryFile (by simp)) hsummary

/-- The name that an operation makes something of. -/
def slot (who : Bool) : FileStep → Slot
  | clearLog | copyLog => .log
  | clearSummary | copySummary => .summary
  | create | log _ | dropLog => .draftLog who
  | summarize _ | dropSummary => .draftSummary who

end FileStep

end Regression
