import Regression.Proofs.Apart
import Regression.Proofs.Encoding
import Regression.Proofs.Lasting
import Regression.Proofs.Lines
import Regression.Proofs.Tools

namespace Regression

open Text (Bytes)

/-- The names under which a session keeps its log and its summary. -/
def LogFiles.names (f : LogFiles) : List Path :=
  [f.logFile, f.tmpLogFile, f.summaryFile, f.tmpSummaryFile]

/-- A change that leaves alone what lies under some names. -/
def Change.Spares (names : List Path) (cwd : Location) (ch : Change) : Prop :=
  ∀ p ∈ names, ch.after.spot cwd p = ch.before.spot cwd p

/-- Tools that leave a sound tree sound. -/
def Tools.Sound (tools : Tools) : Prop :=
  ∀ history c cwd files ended, tools history c cwd files = .ok ended →
    files.Sound → ended.files.Sound

/-- What keeping the log and its summary leaves of a machine: `told` is noted besides. -/
structure Telling (m m' : Machine) (told : List String) : Prop where
  notes : m'.notes = told.reverse ++ m.notes
  changes : m'.changes = m.changes
  tools : m'.tools = m.tools
  directory : m'.directory = m.directory
  clock : m'.clock = m.clock

theorem Telling.trans {m₁ m₂ m₃ : Machine} {first rest : List String} (h : Telling m₁ m₂ first)
    (h' : Telling m₂ m₃ rest) : Telling m₁ m₃ (first ++ rest) := by
  refine ⟨?_, h'.changes.trans h.changes, h'.tools.trans h.tools,
    h'.directory.trans h.directory, h'.clock.trans h.clock⟩
  rw [h'.notes, h.notes, List.reverse_append, List.append_assoc]

/-- A session's log in good order: its names are apart, and it is open at the end of a file that
holds `text`. -/
structure Tended (f : LogFiles) (m : Machine) (text : String) : Prop where
  apart : m.files.Apart m.directory f.names
  log : ∃ k offset, (offset = none ∨ offset = some (Text.encode text).length) ∧
    m.log = .file { path := f.tmpLogFile, handle := some (.file k offset), echo := true } ∧
    ∃ l mode, m.files.spot m.directory f.tmpLogFile =
      .ok (l, some (.file k mode (Text.encode text)))

/-- The same while the log is closed. -/
structure Shut (f : LogFiles) (m : Machine) (text : String) : Prop where
  apart : m.files.Apart m.directory f.names
  log : m.log = .file { path := f.tmpLogFile, handle := none, echo := true }
  holds : m.files.Holds m.directory f.tmpLogFile (Text.encode text)

/-- What is written through a handle at the end of a file is added to it. -/
theorem FileTree.write_end (t : FileTree) (k : Nat) {offset : Option Nat} {old : Bytes}
    (ho : offset = none ∨ offset = some old.length) (bytes : Bytes) :
    ∃ g offset', t.write (.file k offset) bytes = .ok (t.mapContents k g, .file k offset') ∧
      g old = old ++ bytes ∧
      (offset' = none ∨ offset' = some (old ++ bytes).length) := by
  rcases ho with rfl | rfl
  · exact ⟨fun old => old ++ bytes, none, rfl, rfl, .inl rfl⟩
  · refine ⟨fun old' => overwrite old' old.length bytes, some (old.length + bytes.length), rfl, ?_,
      .inr (by rw [List.length_append])⟩
    simp [overwrite]

variable {f : LogFiles} {m m' : Machine} {text : String}

theorem LogFiles.tmpLogFile_mem (f : LogFiles) : f.tmpLogFile ∈ f.names := by simp [names]

namespace Tended

/-- Good order lasts where nothing is made of the names. -/
theorem same (h : Tended f m text) (hlog : m'.log = m.log) (hdirectory : m'.directory = m.directory)
    (hsound : m'.files.Sound)
    (hsame : ∀ p ∈ f.names, m'.files.spot m.directory p = m.files.spot m.directory p) :
    Tended f m' text := by
  obtain ⟨k, offset, hoffset, hopen, l, mode, hfile⟩ := h.log
  refine ⟨hdirectory ▸ h.apart.same hsound hsame, k, offset, hoffset, hlog ▸ hopen, l, mode, ?_⟩
  rw [hdirectory, hsame _ f.tmpLogFile_mem, hfile]

/-- A message is one more line. -/
theorem note (h : Tended f m text) (message : String) : ∃ m',
    (Regression.note message).on m = (.ok (), m') ∧
      Tended f m' (text ++ (Text.trimEnd message ++ "\n")) ∧
      Telling m m' [Text.trimEnd message] ∧ m'.files.outline = m.files.outline ∧
      ∀ p ∈ f.names, p ≠ f.tmpLogFile →
        m'.files.spot m.directory p = m.files.spot m.directory p := by
  obtain ⟨k, offset, hoffset, hopen, l, mode, hfile⟩ := h.log
  obtain ⟨g, offset', hwrite, hg, hoffset'⟩ :=
    m.files.write_end k hoffset (Text.encode (Text.trimEnd message ++ "\n"))
  rw [← Text.encode_append] at hg hoffset'
  have hwrote := h.apart.mapContents f.tmpLogFile_mem hfile g
  rw [hg] at hwrote
  refine ⟨{ m with
    files := m.files.mapContents k g
    log := .file { path := f.tmpLogFile, handle := some (.file k offset'), echo := true }
    console := m.console ++ Text.trimEnd message ++ "\n"
    notes := Text.trimEnd message :: m.notes },
    ?_, ?_, ?_, m.files.outline_mapContents k g, hwrote.others⟩
  · rw [note_on_file hopen]
    simp only [hwrite]
    rfl
  · exact ⟨hwrote.apart, k, offset', hoffset', rfl, hwrote.here⟩
  · exact ⟨rfl, rfl, rfl, rfl, rfl⟩

/-- Closing the log changes nothing else. -/
theorem stop (h : Tended f m text) : ∃ m', stopLog.on m = ((), m') ∧ Shut f m' text ∧
    Telling m m' [] ∧ m'.files = m.files := by
  obtain ⟨k, offset, -, hopen, l, mode, hfile⟩ := h.log
  refine ⟨{ m with log := .file { path := f.tmpLogFile, handle := none, echo := true } },
    ?_, ?_, ?_, rfl⟩
  · rw [stopLog_on_file hopen]
  · exact ⟨h.apart, rfl, l, k, mode, hfile⟩
  · exact ⟨rfl, rfl, rfl, rfl, rfl⟩

end Tended

namespace Shut

/-- A message to a closed log reaches the console alone. -/
theorem note (h : Shut f m text) (message : String) : ∃ m',
    (Regression.note message).on m = (.ok (), m') ∧ Shut f m' text ∧
      Telling m m' [Text.trimEnd message] ∧ m'.files = m.files := by
  refine ⟨m.told true (Text.trimEnd message), ?_, ⟨h.apart, h.log, h.holds⟩,
    ⟨rfl, rfl, rfl, rfl, rfl⟩, rfl⟩
  rw [note_on_file h.log]

/-- What is read back is what was written. -/
theorem readText (h : Shut f m text) {found : String}
    (hok : (Regression.readText f.tmpLogFile).on m = (.ok found, m')) :
    found = text ∧ m' = m ∧ (m.files.read m.directory f.tmpLogFile).isOk := by
  obtain ⟨l, k, mode, hfile⟩ := h.holds
  obtain ⟨m₁, m₂, hget, hok⟩ := Job.bind_ok hok
  cases hget
  cases hread : m.files.readText m.directory f.tmpLogFile with
  | error fault =>
    rw [hread] at hok
    cases hok
  | ok s =>
    rw [hread] at hok
    cases hok
    obtain ⟨bytes, hbytes, hdecode⟩ := FileTree.bind_ok hread
    rw [FileTree.read_file hfile hbytes, Text.decode?_encode] at hdecode
    cases hdecode
    exact ⟨rfl, rfl, by rw [hbytes]; rfl⟩

theorem readText_succeeds (h : Shut f m text)
    (hread : (m.files.read m.directory f.tmpLogFile).isOk) :
    (Regression.readText f.tmpLogFile).on m = (.ok text, m) := by
  obtain ⟨l, k, mode, hfile⟩ := h.holds
  cases hbytes : m.files.read m.directory f.tmpLogFile with
  | error fault =>
    rw [hbytes] at hread
    cases hread
  | ok bytes =>
    have hall := FileTree.read_file hfile hbytes
    have htext : m.files.readText m.directory f.tmpLogFile = .ok text := by
      simp [FileTree.readText, hbytes, hall, Text.decode?_encode, bind, Except.bind, pure, Except.pure]
    unfold Regression.readText
    rw [Job.on_bind_ok (Job.on_get m), htext]
    rfl

/-- A log that is opened again is in good order: what it held stays. -/
theorem restart (h : Shut f m text) (hok : restartLog.on m = (.ok (), m')) :
    Tended f m' text ∧ Telling m m' [] ∧ m'.files = m.files ∧
      (m.files.openFile m.directory f.tmpLogFile .append .newFile).isOk := by
  obtain ⟨l, k, mode, hfile⟩ := h.holds
  obtain ⟨m₁, m₂, hget, hok⟩ := Job.bind_ok hok
  cases hget
  rw [h.log] at hok
  obtain ⟨hd, m₃, hopen, hok⟩ := Job.bind_ok hok
  obtain ⟨files, hfiles, rfl⟩ := openLogFile_ok hopen
  obtain ⟨rfl, rfl⟩ := FileTree.Apart.reopenFile hfile hfiles
  cases hok
  exact ⟨⟨h.apart, k, none, .inl rfl, rfl, l, mode, hfile⟩, ⟨rfl, rfl, rfl, rfl, rfl⟩, rfl,
    by rw [hfiles]; rfl⟩

theorem restart_succeeds (h : Shut f m text)
    (hopen : (m.files.openFile m.directory f.tmpLogFile .append .newFile).isOk) :
    ∃ m', restartLog.on m = (.ok (), m') := by
  cases hfiles : m.files.openFile m.directory f.tmpLogFile .append .newFile with
  | error fault =>
    rw [hfiles] at hopen
    cases hopen
  | ok opened =>
    have hopened : (openLogFile f.tmpLogFile .append).on m =
        (.ok opened.2, { m with files := opened.1 }) := by rw [openLogFile_on, hfiles]
    unfold restartLog
    rw [Job.on_bind_ok (Job.on_get m), h.log]
    simp only
    rw [Job.on_bind_ok hopened]
    exact ⟨_, rfl⟩

end Shut

/-- A log that has just been created is in good order, unless its names meet or lead to a device. -/
theorem createLog_ok (hok : (createLog f.tmpLogFile true).on m = (.ok (), m'))
    (hapart : m'.files.Apart m'.directory f.names) : Tended f m' "" := by
  obtain ⟨files, hd, hfiles, rfl⟩ := createLog_opens hok
  have hcreated := FileTree.created hfiles (by decide)
  rcases hcreated with ⟨l, room, rfl, hdevice⟩ | ⟨k, l, mode, rfl, hempty, -⟩
  · obtain ⟨l', o, hl', hplain⟩ := hapart.plain f.tmpLogFile f.tmpLogFile_mem
    have hspot : m.files.spot m.directory f.tmpLogFile = .ok (l', o) := hl'
    rw [hdevice] at hspot
    cases hspot
    cases hplain _ rfl
  · exact ⟨hapart, k, some 0, .inr rfl, rfl, l, mode, hempty⟩

/-- What tests that began on `m₁` have made of the machine: as long as every change has spared the
names, the log is in good order and holds all messages since. -/
structure Since (f : LogFiles) (m₁ m : Machine) : Prop where
  tools : m.tools = m₁.tools
  directory : m.directory = m₁.directory
  clock : m.clock = m₁.clock
  kept : ∃ told new, m.notes = told ++ m₁.notes ∧ m.changes = new ++ m₁.changes ∧
    ((∀ ch ∈ new, ch.Spares f.names m₁.directory) → Tended f m (written told.reverse))

theorem Since.refl (h : Tended f m "") : Since f m m :=
  ⟨rfl, rfl, rfl, [], [], rfl, rfl, fun _ => h⟩

/-- Nothing else of the machine counts. -/
theorem Since.alike {m₁ : Machine} (h : Since f m₁ m) (htools : m'.tools = m.tools)
    (hdirectory : m'.directory = m.directory) (hclock : m'.clock = m.clock)
    (hnotes : m'.notes = m.notes) (hchanges : m'.changes = m.changes) (hlog : m'.log = m.log)
    (hfiles : m'.files = m.files) : Since f m₁ m' := by
  obtain ⟨told, new, htold, hnew, htended⟩ := h.kept
  refine ⟨htools.trans h.tools, hdirectory.trans h.directory, hclock.trans h.clock, told, new,
    hnotes.trans htold, hchanges.trans hnew, fun hs => ?_⟩
  refine (htended hs).same hlog hdirectory ?_ fun _ _ => by rw [hfiles]
  rw [hfiles]
  exact (htended hs).apart.sound

/-- Every step of the tests keeps this so, where the tools leave sound trees. -/
theorem Since.lasting {m₁ : Machine} (tmp : Path) (A : Command → Prop) (htools : m₁.tools.Sound) :
    Lasting tmp A (Since f m₁) := by
  refine ⟨⟨?_, ?_, ?_⟩, ?_, ?_⟩
  · intro m text h
    exact h.alike rfl rfl rfl rfl rfl rfl rfl
  · intro m text h
    exact h.alike rfl rfl rfl rfl rfl rfl rfl
  · intro m c _ h
    rw [Command.start_on]
    cases hstart : m.tools m.commands c m.directory m.files with
    | error fault => exact h.alike rfl rfl rfl rfl rfl rfl rfl
    | ok ended =>
      obtain ⟨told, new, hnotes, hchanges, htended⟩ := h.kept
      refine ⟨h.tools, h.directory, h.clock, told, _ :: new, hnotes, congrArg _ hchanges,
        fun hs => ?_⟩
      obtain ⟨hfirst, hs⟩ := List.forall_mem_cons.mp hs
      have hm := htended hs
      refine hm.same rfl rfl ?_ fun p hp => ?_
      · rw [h.tools] at hstart
        exact htools _ _ _ _ _ hstart hm.apart.sound
      · rw [h.directory]
        exact hfirst p hp
  · intro m text h
    obtain ⟨told, new, hnotes, hchanges, htended⟩ := h.kept
    obtain ⟨files, log, console, hrun⟩ := note_records m text
    rw [hrun]
    refine ⟨h.tools, h.directory, h.clock, Text.trimEnd text :: told, new, ?_, hchanges, fun hs => ?_⟩
    · rw [hnotes]
      rfl
    · obtain ⟨m', hrun', hnoted, -⟩ := (htended hs).note text
      rw [hrun'] at hrun
      rw [← hrun, List.reverse_cons, written_append]
      simpa [written] using hnoted
  · intro m files hedit h
    obtain ⟨told, new, hnotes, hchanges, htended⟩ := h.kept
    refine ⟨h.tools, h.directory, h.clock, told, _ :: new, hnotes, congrArg _ hchanges, fun hs => ?_⟩
    obtain ⟨hfirst, hs⟩ := List.forall_mem_cons.mp hs
    have hm := htended hs
    refine hm.same rfl rfl (hedit.sound hm.apart.sound) fun p hp => ?_
    rw [h.directory]
    exact hfirst p hp

end Regression
