import Regression.Proofs.Tended

namespace Regression

open Text (Bytes)

/-- What is done with a log that is begun. -/
inductive LogStep where
  | message (text : String)
  | blank
  | stop
  | restart
  deriving DecidableEq, Repr

namespace LogStep

def run : LogStep → Job Unit
  | message text => note text
  | blank => noteBlank
  | stop => stopLog
  | restart => restartLog

def runAll : List LogStep → Job Unit
  | [] => return
  | step :: steps => do
    step.run
    runAll steps

/-- Whether the log is open after a step. -/
def leavesOpen (isOpen : Bool) : LogStep → Bool
  | stop => false
  | restart => true
  | _ => isOpen

/-- The message of a step, without the blanks at its end. -/
def message? : LogStep → Option String
  | message text => some (Text.trimEnd text)
  | blank => some ""
  | _ => none

/-- The messages that a step adds to the file. -/
def adds (isOpen : Bool) (step : LogStep) : List String :=
  if isOpen then step.message?.toList else []

/-- The messages that come while the log is open. -/
def kept (isOpen : Bool) : List LogStep → List String
  | [] => []
  | step :: steps => step.adds isOpen ++ kept (step.leavesOpen isOpen) steps

/-- What is told while the log is closed is not made up for when it is opened again. -/
example : kept true [message "a ", stop, message "b", restart, blank, message "c"] =
    ["a", "", "c"] := by decide

theorem runAll_append (steps steps' : List LogStep) (m : Machine) {m' : Machine}
    (h : (runAll steps).on m = (.ok (), m')) :
    (runAll (steps ++ steps')).on m = (runAll steps').on m' := by
  induction steps generalizing m with
  | nil =>
    cases h
    rfl
  | cons step steps ih =>
    obtain ⟨_, m₁, hstep, hsteps⟩ := Job.bind_ok h
    rw [List.cons_append, runAll, Job.on_bind_ok hstep]
    exact ih m₁ hsteps

end LogStep

/-- A log in use: it is open at the end of the file under its name or closed, the file holds `text`,
and it can be opened again. -/
structure Recording (p : Path) (cwd : Location) (isOpen : Bool) (text : String) (m : Machine) :
    Prop where
  directory : m.directory = cwd
  log : ∃ k offset echo, (offset = none ∨ offset = some (Text.encode text).length) ∧
    m.log = .file { path := p, handle := if isOpen then some (.file k offset) else none, echo } ∧
    ∃ l mode, m.files.spot cwd p = .ok (l, some (.file k mode (Text.encode text)))
  reopens : (m.files.openFile cwd p .append .newFile).isOk

namespace Recording

variable {p : Path} {cwd : Location} {isOpen : Bool} {text : String} {m : Machine}

/-- A log that has just been begun, where its name leads to no device. -/
theorem created {echo : Bool} {m₁ : Machine} (hcreate : (createLog p echo).on m = (.ok (), m₁))
    (hdevice : ∀ l room, m.files.spot m.directory p ≠ .ok (l, some (.device room))) :
    Recording p m.directory true "" m₁ := by
  obtain ⟨files, hd, hfiles, rfl⟩ := createLog_opens hcreate
  rcases FileTree.created hfiles (by decide) with
    ⟨l, room, -, hspot⟩ | ⟨k, l, mode, rfl, hempty, hwrites⟩
  · exact absurd hspot (hdevice l room)
  · refine ⟨rfl, ⟨k, some 0, echo, .inr rfl, rfl, l, mode, hempty⟩, ?_⟩
    rw [FileTree.openFile_isOk (FileTree.openFile_whole hfiles) hempty]
    exact hwrites

theorem note (h : Recording p cwd isOpen text m) (message : String) : ∃ m',
    (Regression.note message).on m = (.ok (), m') ∧
      Recording p cwd isOpen (text ++ written ((LogStep.message message).adds isOpen)) m' := by
  obtain ⟨k, offset, echo, hoffset, hlog, l, mode, hfile⟩ := h.log
  rw [note_on_file hlog]
  cases isOpen with
  | false =>
    have hadds : text ++ written ((LogStep.message message).adds false) = text := by
      simp [LogStep.adds, written]
    rw [hadds]
    exact ⟨_, rfl, h.directory, ⟨k, offset, echo, hoffset, hlog, l, mode, hfile⟩, h.reopens⟩
  | true =>
    obtain ⟨g, offset', hwrite, hg, hoffset'⟩ :=
      m.files.write_end k hoffset (Text.encode (Text.trimEnd message ++ "\n"))
    rw [← Text.encode_append] at hg hoffset'
    have hadds : written ((LogStep.message message).adds true) = Text.trimEnd message ++ "\n" := by
      simp [LogStep.adds, LogStep.message?, written]
    have hwrote := FileTree.spot_mapContents k g hfile
    simp only [Option.map_some, Node.rewrite, ↓reduceIte, hg] at hwrote
    simp only [↓reduceIte, hwrite, hadds]
    refine ⟨_, rfl, h.directory, ⟨k, offset', echo, hoffset', rfl, l, mode, hwrote⟩, ?_⟩
    rw [← FileTree.openFile_outline, FileTree.outline_mapContents, FileTree.openFile_outline]
    exact h.reopens

theorem stop (h : Recording p cwd isOpen text m) : ∃ m',
    Job.on (liftM stopLog) m = (.ok (), m') ∧ Recording p cwd false text m' ∧
      (isOpen = false → m' = m) := by
  obtain ⟨k, offset, echo, hoffset, hlog, hfile⟩ := h.log
  rw [Job.on_lift, stopLog_on_file hlog]
  refine ⟨_, rfl, ⟨h.directory, ⟨k, offset, echo, hoffset, rfl, hfile⟩, h.reopens⟩, ?_⟩
  rintro rfl
  cases m
  cases hlog
  rfl

theorem restart (h : Recording p cwd isOpen text m) : ∃ m',
    restartLog.on m = (.ok (), m') ∧ Recording p cwd true text m' ∧ (isOpen = true → m' = m) := by
  obtain ⟨rfl, ⟨k, offset, echo, hoffset, hlog, l, mode, hfile⟩, hreopens⟩ := h
  unfold restartLog
  rw [Job.on_bind_ok (Job.on_get m), hlog]
  cases isOpen with
  | true =>
    exact ⟨m, rfl, ⟨rfl, ⟨k, offset, echo, hoffset, hlog, l, mode, hfile⟩, hreopens⟩, fun _ => rfl⟩
  | false =>
    cases hfiles : m.files.openFile m.directory p .append .newFile with
    | error fault =>
      rw [hfiles] at hreopens
      cases hreopens
    | ok opened =>
      obtain ⟨files, hd⟩ := opened
      obtain ⟨rfl, rfl⟩ := FileTree.Apart.reopenFile hfile hfiles
      have hopen : (openLogFile p .append).on m = (.ok (.file k none), m) := by
        rw [openLogFile_on, hfiles]
      simp only [Bool.false_eq_true, ↓reduceIte]
      rw [Job.on_bind_ok hopen]
      exact ⟨_, rfl, ⟨rfl, ⟨k, none, echo, .inl rfl, rfl, l, mode, hfile⟩, hreopens⟩, nofun⟩

/-- What one step makes of a log. -/
theorem step (h : Recording p cwd isOpen text m) (step : LogStep) : ∃ m',
    step.run.on m = (.ok (), m') ∧
      Recording p cwd (step.leavesOpen isOpen) (text ++ written (step.adds isOpen)) m' ∧
      (step.message? = none → step.leavesOpen isOpen = isOpen → m' = m) := by
  have hnothing : text ++ written [] = text := by simp [written]
  cases step with
  | message message =>
    obtain ⟨m', hrun, hnoted⟩ := h.note message
    exact ⟨m', hrun, hnoted, fun h => by cases h⟩
  | blank =>
    obtain ⟨m', hrun, hnoted⟩ := h.note ""
    have hadds : LogStep.adds isOpen (.message "") = LogStep.adds isOpen .blank := by
      simp [LogStep.adds, LogStep.message?, Text.trimEnd_empty]
    exact ⟨m', hrun, hadds ▸ hnoted, fun h => by cases h⟩
  | stop =>
    obtain ⟨m', hrun, hstopped, hsame⟩ := h.stop
    have hadds : LogStep.adds isOpen .stop = [] := by simp [LogStep.adds, LogStep.message?]
    rw [hadds, hnothing]
    exact ⟨m', hrun, hstopped, fun _ hopen => hsame hopen.symm⟩
  | restart =>
    obtain ⟨m', hrun, hopened, hsame⟩ := h.restart
    have hadds : LogStep.adds isOpen .restart = [] := by simp [LogStep.adds, LogStep.message?]
    rw [hadds, hnothing]
    exact ⟨m', hrun, hopened, fun _ hopen => hsame hopen.symm⟩

/-- What steps make of a log, one after the other. -/
theorem steps (h : Recording p cwd isOpen text m) (steps : List LogStep) : ∃ m',
    (LogStep.runAll steps).on m = (.ok (), m') ∧
      Recording p cwd (steps.foldl (fun o step => step.leavesOpen o) isOpen)
        (text ++ written (LogStep.kept isOpen steps)) m' := by
  induction steps generalizing isOpen text m with
  | nil => exact ⟨m, rfl, by simpa [LogStep.kept, written] using h⟩
  | cons step steps ih =>
    obtain ⟨m₁, hrun, hstep, -⟩ := h.step step
    obtain ⟨m', hruns, hsteps⟩ := ih hstep
    refine ⟨m', ?_, ?_⟩
    · rw [LogStep.runAll, Job.on_bind_ok hrun, hruns]
    · rw [LogStep.kept, written_append, ← String.append_assoc]
      exact hsteps

end Recording

/-- What comes of a log that was begun on a machine and is stopped after these steps. -/
structure Recorded (p : Path) (steps : List LogStep) (m : Machine) : Prop where
  /-- No step fails, and the file holds the messages that came while the log was open, a line each. -/
  holds : ∃ m', (LogStep.runAll (steps ++ [.stop])).on m = (.ok (), m') ∧
    m'.files.Holds m'.directory p (Text.encode (written (LogStep.kept true steps)))
  /-- A log that is stopped or opened again twice is as it was after the first time. -/
  twice : ∀ step : LogStep, step.message? = none →
    (LogStep.runAll (steps ++ [step, step])).on m = (LogStep.runAll (steps ++ [step])).on m

/-- However a log is used that was begun under the name of a file or of nothing, the file keeps what
is told while the log is open. -/
theorem createLog_records {p : Path} {echo : Bool} {m m₁ : Machine}
    (hcreate : (createLog p echo).on m = (.ok (), m₁))
    (hdevice : ∀ l room, m.files.spot m.directory p ≠ .ok (l, some (.device room)))
    (steps : List LogStep) : Recorded p steps m₁ := by
  obtain ⟨m₂, hruns, hrecording⟩ := (Recording.created hcreate hdevice).steps steps
  rw [String.empty_append] at hrecording
  constructor
  · obtain ⟨m₃, hstop, hstopped, -⟩ := hrecording.stop
    obtain ⟨k, offset, echo, -, -, l, mode, hfile⟩ := hstopped.log
    refine ⟨m₃, ?_, l, k, mode, ?_⟩
    · rw [LogStep.runAll_append _ _ _ hruns, LogStep.runAll, LogStep.run, Job.on_bind_ok hstop]
      rfl
    · rw [hstopped.directory]
      exact hfile
  · intro step hstep
    obtain ⟨m₃, hfirst, hthen, -⟩ := hrecording.step step
    obtain ⟨m₄, hsecond, -, hsame⟩ := hthen.step step
    have hopen : ∀ o, step.leavesOpen (step.leavesOpen o) = step.leavesOpen o := by
      cases step <;> exact fun _ => rfl
    rw [hsame hstep (hopen _)] at hsecond
    rw [LogStep.runAll_append _ _ _ hruns, LogStep.runAll_append _ _ _ hruns, LogStep.runAll,
      LogStep.runAll, LogStep.runAll, Job.on_bind_ok hfirst, Job.on_bind_ok hsecond,
      Job.on_bind_ok hfirst]

namespace Notebook

/-- A machine with a root and one thing in it. -/
def machine (n : Node) : Machine :=
  { files := { entries := [([], .directory .newDirectory), (["w"], n)], serial := 1 }
    tools := fun _ _ _ _ => .error .notFound, clock := ⟨2024, 5, 1, 12, 0, 0, 0⟩, process := 1
    scratchRoot := ⟨"/"⟩ }

/-- The machine after a log is begun there. -/
def begun (n : Node) : Machine := ((createLog ⟨"/w"⟩ false).on (machine n)).2

def steps : List LogStep := [.message "a ", .stop, .message "b", .restart, .blank, .message "c"]

/-- What the file held is gone. -/
theorem createLog_records_notebook :
    (createLog ⟨"/w"⟩ false).on (machine (.file 0 .newFile [120, 10])) =
        (.ok (), begun (.file 0 .newFile [120, 10])) ∧
      Recorded ⟨"/w"⟩ steps (begun (.file 0 .newFile [120, 10])) := by
  have hcreate : (createLog ⟨"/w"⟩ false).on (machine (.file 0 .newFile [120, 10])) =
      (.ok (), begun (.file 0 .newFile [120, 10])) := Prod.ext (by decide +kernel) rfl
  have hspot : (machine (.file 0 .newFile [120, 10])).files.spot [] ⟨"/w"⟩ =
      .ok (["w"], some (.file 0 .newFile [120, 10])) := by decide +kernel
  refine ⟨hcreate, createLog_records hcreate ?_ steps⟩
  intro l room hl
  cases hspot.symm.trans hl

/-- A device takes every message and keeps none, and nothing fails. -/
theorem device_unrecorded :
    (createLog ⟨"/w"⟩ false).on (machine (.device none)) = (.ok (), begun (.device none)) ∧
      ((LogStep.runAll ([.message "a"] ++ [.stop])).on (begun (.device none))).1.isOk = true ∧
      ¬Recorded ⟨"/w"⟩ [.message "a"] (begun (.device none)) := by
  refine ⟨Prod.ext (by decide +kernel) rfl, by decide +kernel, fun h => ?_⟩
  obtain ⟨m', hrun, l, k, mode, hfile⟩ := h.holds
  have hdevice : ((LogStep.runAll ([.message "a"] ++ [.stop])).on (begun (.device none))).2.files.spot
      [] ⟨"/w"⟩ = .ok (["w"], some (.device none)) := by decide +kernel
  have hdirectory : ((LogStep.runAll ([.message "a"] ++ [.stop])).on
      (begun (.device none))).2.directory = [] := by decide +kernel
  rw [hrun] at hdevice hdirectory
  rw [hdirectory] at hfile
  cases hdevice.symm.trans hfile

end Notebook

end Regression
