import Regression.Proofs.Notes
import Regression.Proofs.Outline

namespace Regression

/-- A log that takes every line: it does not lead to a device with room for so many bytes only. -/
def Log.TakesAll (t : FileTree) : Log → Prop
  | .memory _ => True
  | .file { handle := some (.device l), .. } => ∀ room, t.node? l ≠ some (.device (some room))
  | .file _ => True

/-- A later machine on which a walk finds what it found before, with the same tools. The contents of
files may have changed, such as those of the log. -/
structure Steady (m m' : Machine) : Prop where
  files : m'.files.outline = m.files.outline
  directory : m'.directory = m.directory
  tools : m'.tools = m.tools
  log : m'.log.TakesAll m'.files

theorem Steady.refl {m : Machine} (h : m.log.TakesAll m.files) : Steady m m := ⟨rfl, rfl, rfl, h⟩

theorem Steady.trans {m₁ m₂ m₃ : Machine} (h : Steady m₁ m₂) (h' : Steady m₂ m₃) :
    Steady m₁ m₃ :=
  ⟨h'.files.trans h.files, h'.directory.trans h.directory, h'.tools.trans h.tools, h'.log⟩

/-- A write to such a log succeeds, and the log goes on taking lines. -/
theorem write_takesAll {t : FileTree} {l : Logger} {h : FileTree.Handle} (hl : l.handle = some h)
    (ht : (Log.file l).TakesAll t) (bytes : Text.Bytes) :
    ∃ t' h', t.write h bytes = .ok (t', h') ∧ t'.outline = t.outline ∧
      (Log.file { l with handle := some h' }).TakesAll t' := by
  cases h with
  | file serial offset =>
    cases offset with
    | none => exact ⟨_, _, rfl, FileTree.outline_mapContents .., trivial⟩
    | some n => exact ⟨_, _, rfl, FileTree.outline_mapContents .., trivial⟩
  | device d =>
    obtain ⟨path, handle, echo⟩ := l
    cases hl
    refine ⟨t, .device d, ?_, rfl, ht⟩
    simp only [FileTree.write]
    split
    · next room hd => exact absurd hd (ht room)
    · rfl

/-- A note to such a log succeeds and leaves the machine steady. -/
theorem note_steady {m : Machine} (h : m.log.TakesAll m.files) (text : String) :
    ∃ files log console, (note text).on m =
        (.ok (), { m with files, log, console, notes := Text.trimEnd text :: m.notes }) ∧
      Steady m { m with files, log, console, notes := Text.trimEnd text :: m.notes } := by
  cases hlog : m.log with
  | memory messages =>
    refine ⟨m.files, .memory (messages ++ [Text.trimEnd text]), m.console, ?_, rfl, rfl, rfl, trivial⟩
    rw [note_on_memory hlog]
    rfl
  | file l =>
    rw [hlog] at h
    refine ?_
    rw [note_on_file hlog]
    cases hh : l.handle with
    | none =>
      refine ⟨m.files, m.log, _, rfl, rfl, rfl, rfl, ?_⟩
      rw [hlog]
      exact h
    | some hd =>
      obtain ⟨files, hd', hw, hfiles, hlog'⟩ := write_takesAll hh h
        (Text.encode (Text.trimEnd text ++ "\n"))
      simp only [hw]
      exact ⟨files, .file { l with handle := some hd' }, _, rfl, hfiles, rfl, rfl, hlog'⟩

end Regression
