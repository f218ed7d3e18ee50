import Regression.Proofs.Job

namespace Regression

/-- The machine after a message is recorded, and shown where the log says so. -/
def Machine.told (m : Machine) (echo : Bool) (text : String) : Machine :=
  { m with
    notes := text :: m.notes
    console := if echo then m.console ++ text ++ "\n" else m.console }

@[simp] theorem say_on (line : String) (m : Machine) :
    (say line).on m = ((), { m with console := m.console ++ line ++ "\n" }) := rfl

theorem editOr_on (raise : Fault → Error) (change : FileTree → Location → Except Fault FileTree)
    (m : Machine) :
    (editOr raise change).on m =
      match change m.files m.directory with
      | .ok files =>
        (.ok (), { m with
          files, changes := { tool := none, before := m.files, after := files } :: m.changes })
      | .error fault => (.error (raise fault), m) := by
  simp only [editOr, Job.on_bind, Job.on_get]
  cases change m.files m.directory <;> rfl

theorem keep_on (change : FileTree → Location → Except Fault FileTree) (m : Machine) :
    (keep change).on m =
      match change m.files m.directory with
      | .ok files => (.ok (), { m with files })
      | .error fault => (.error (.system fault), m) := by
  simp only [keep, Job.on_bind, Job.on_get]
  cases change m.files m.directory <;> rfl

variable {m m' : Machine} {l : Logger}

theorem keep_ok {change : FileTree → Location → Except Fault FileTree}
    (hok : (keep change).on m = (.ok (), m')) : ∃ files,
      change m.files m.directory = .ok files ∧ m' = { m with files } := by
  rw [keep_on] at hok
  cases hfiles : change m.files m.directory with
  | error fault =>
    rw [hfiles] at hok
    cases hok
  | ok files =>
    rw [hfiles] at hok
    cases hok
    exact ⟨files, rfl, rfl⟩

theorem openLogFile_on (p : Path) (how : FileTree.Opening) (m : Machine) :
    (openLogFile p how).on m =
      match m.files.openFile m.directory p how .newFile with
      | .ok (files, hd) => (.ok hd, { m with files })
      | .error fault => (.error (.logOpen p fault), m) := by
  simp only [openLogFile, Job.on_bind, Job.on_get]
  cases m.files.openFile m.directory p how .newFile <;> rfl

theorem openLogFile_ok {p : Path} {how : FileTree.Opening} {hd : FileTree.Handle}
    (hok : (openLogFile p how).on m = (.ok hd, m')) : ∃ files,
      m.files.openFile m.directory p how .newFile = .ok (files, hd) ∧ m' = { m with files } := by
  rw [openLogFile_on] at hok
  cases hfiles : m.files.openFile m.directory p how .newFile with
  | error fault =>
    rw [hfiles] at hok
    cases hok
  | ok opened =>
    rw [hfiles] at hok
    cases hok
    exact ⟨opened.1, rfl, rfl⟩

/-- A log that is created is open. -/
theorem createLog_opens {p : Path} {echo : Bool} (hok : (createLog p echo).on m = (.ok (), m')) :
    ∃ files hd, m.files.openFile m.directory p .afresh .newFile = .ok (files, hd) ∧
      m' = { m with files, log := .file { path := p, handle := some hd, echo } } := by
  obtain ⟨hd, m₁, hopen, hlog⟩ := Job.bind_ok hok
  obtain ⟨files, hfiles, rfl⟩ := openLogFile_ok hopen
  cases hlog
  exact ⟨files, hd, hfiles, rfl⟩

theorem note_on_memory {messages : List String} (h : m.log = .memory messages) (text : String) :
    (note text).on m =
      (.ok (), { m.told false (Text.trimEnd text) with
        log := .memory (messages ++ [Text.trimEnd text]) }) := by
  simp [note, Job.on_bind, h, Machine.told]

/-- A log that is closed keeps its name. -/
theorem stopLog_on_file (h : m.log = .file l) :
    stopLog.on m = ((), { m with log := .file { l with handle := none } }) := by
  cases m
  cases h
  rfl

theorem stopLog_on_memory {messages : List String} (h : m.log = .memory messages) :
    stopLog.on m = ((), m) := by
  cases m
  cases h
  rfl

theorem note_on_file (h : m.log = .file l) (text : String) :
    (note text).on m =
      match l.handle with
      | none => (.ok (), m.told l.echo (Text.trimEnd text))
      | some hd =>
        match m.files.write hd (Text.encode (Text.trimEnd text ++ "\n")) with
        | .ok (files, hd) =>
          (.ok (), { m.told l.echo (Text.trimEnd text) with
            files, log := .file { l with handle := some hd } })
        | .error fault => (.error (.logWrite l.path fault), m.told l.echo (Text.trimEnd text)) := by
  obtain ⟨path, handle, echo⟩ := l
  cases m
  subst h
  simp only [note, Job.on_bind, Job.on_modify, Job.on_get, Machine.told]
  cases handle with
  | none => cases echo <;> rfl
  | some hd =>
    cases echo <;> simp only [Job.on_bind, Job.on_lift, Job.on_get, ↓reduceIte, Bool.false_eq_true]
    all_goals split <;> simp_all

/-- Whatever becomes of a message, it is recorded, and only the log and the files may change
besides. -/
theorem note_records (m : Machine) (text : String) : ∃ files log console,
    ((note text).on m).2 = { m with files, log, console, notes := Text.trimEnd text :: m.notes } := by
  cases hlog : m.log with
  | memory messages =>
    rw [note_on_memory hlog]
    exact ⟨_, _, _, rfl⟩
  | file l =>
    rw [note_on_file hlog]
    cases l.handle with
    | none => exact ⟨_, _, _, rfl⟩
    | some hd =>
      simp only
      split
      · exact ⟨_, _, _, rfl⟩
      · exact ⟨_, _, _, rfl⟩

theorem note_ok {text : String} {result : Except Error Unit} (h : (note text).on m = (result, m')) :
    ∃ files log console, m' = { m with files, log, console, notes := Text.trimEnd text :: m.notes } := by
  obtain ⟨files, log, console, hnote⟩ := note_records m text
  rw [h] at hnote
  exact ⟨files, log, console, hnote⟩

/-- A message makes of the files what writing it makes of them, or nothing. -/
theorem note_writes (m : Machine) (text : String) : ((note text).on m).2.files = m.files ∨
    ∃ hd hd', m.files.write hd (Text.encode (Text.trimEnd text ++ "\n")) =
      .ok (((note text).on m).2.files, hd') := by
  cases hlog : m.log with
  | memory messages =>
    rw [note_on_memory hlog]
    exact .inl rfl
  | file l =>
    rw [note_on_file hlog]
    cases l.handle with
    | none => exact .inl rfl
    | some hd =>
      simp only
      split
      · next files hd' hwrite => exact .inr ⟨hd, hd', hwrite⟩
      · exact .inl rfl

end Regression
