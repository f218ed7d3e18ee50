import Regression.Proofs.Onward
import Regression.Proofs.Spot

namespace Regression

namespace FileTree

variable {t u : FileTree} {cwd : Location} {p : Path}

theorem isExecutable_iff : t.isExecutable cwd p = true ↔ ∃ l serial mode bytes,
    t.find cwd p = .ok (l, .file serial mode bytes) ∧ mode.someoneRuns = true := by
  unfold isExecutable
  constructor
  · intro h
    split at h
    · next l serial mode bytes hfind => exact ⟨l, serial, mode, bytes, hfind, h⟩
    · cases h
  · rintro ⟨l, serial, mode, bytes, hfind, hmode⟩
    rw [hfind]
    exact hmode

/-- What is written takes from no file that it can be run. -/
theorem write_isExecutable {hd hd' : Handle} {bytes : Text.Bytes}
    (hwrite : t.write hd bytes = .ok (u, hd')) (h : t.isExecutable cwd p = true) :
    u.isExecutable cwd p = true := by
  cases hd with
  | file serial offset =>
    have houtline : u.outline = t.outline := by
      cases offset <;> cases hwrite <;> exact outline_mapContents ..
    rw [← isExecutable_outline, houtline, isExecutable_outline]
    exact h
  | device d =>
    simp only [write] at hwrite
    split at hwrite
    · next room hroom =>
      split at hwrite
      · cases hwrite
        obtain ⟨l, serial, mode, held, hfind, hmode⟩ := isExecutable_iff.mp h
        have hspot := spot_of_find hfind
        -- A device with less room is a device, so that no route leads elsewhere.
        have hends : Ends (t.node? d) := by
          rw [hroom]
          rintro _ ⟨⟩
          exact ⟨rfl, rfl⟩
        have hother : l ≠ d := by
          rintro rfl
          have hfile := (spot_ok.mp hspot).2
          rw [hroom] at hfile
          cases hfile
        have hafter := spot_put (n := .device (some (room - bytes.length))) hends
          (by rintro _ ⟨⟩; exact ⟨rfl, rfl⟩) hspot
        rw [if_neg hother] at hafter
        exact isExecutable_iff.mpr ⟨l, serial, mode, held, find_of_spot hafter, hmode⟩
      · cases hwrite
    · cases hwrite
      exact h

end FileTree

/-- A change that takes from a file that it can be run. -/
structure Change.Disables (ch : Change) (cwd : Location) (p : Path) : Prop where
  before : ch.before.isExecutable cwd p = true
  after : ch.after.isExecutable cwd p = false

/-- A later machine on which a file that can be run on an earlier one can be run, unless a change in
between took that away. -/
structure Machine.Trusts (m₀ m : Machine) (p : Path) : Prop where
  looked : m₀.isExecutable p = true
  directory : m.directory = m₀.directory
  stands : ∃ new, m.changes = new ++ m₀.changes ∧
    (m.isExecutable p = true ∨ ∃ ch ∈ new, ch.Disables m₀.directory p)

namespace Machine.Trusts

variable {m₀ m m' : Machine} {p : Path}

theorem refl (h : m.isExecutable p = true) : Trusts m m p := ⟨h, rfl, [], rfl, .inl h⟩

/-- Nothing counts but the files, where they are looked at from and what became of them. -/
theorem alike (h : Trusts m₀ m p) (hfiles : m'.files = m.files)
    (hdirectory : m'.directory = m.directory) (hchanges : m'.changes = m.changes) :
    Trusts m₀ m' p := by
  have hsame : m'.isExecutable p = m.isExecutable p := by
    rw [isExecutable, isExecutable, hfiles, hdirectory]
  obtain ⟨new, hnew, hstands⟩ := h.stands
  rw [← hsame] at hstands
  exact ⟨h.looked, hdirectory.trans h.directory, new, hchanges.trans hnew, hstands⟩

theorem note (h : Trusts m₀ m p) (text : String) : Trusts m₀ ((Regression.note text).on m).2 p := by
  obtain ⟨files, log, console, hrecord⟩ := note_records m text
  have hdirectory : ((Regression.note text).on m).2.directory = m.directory := by rw [hrecord]
  have hchanges : ((Regression.note text).on m).2.changes = m.changes := by rw [hrecord]
  obtain ⟨new, hnew, hstands⟩ := h.stands
  refine ⟨h.looked, hdirectory.trans h.directory, new, hchanges.trans hnew, hstands.imp_left ?_⟩
  intro hexec
  rw [isExecutable, hdirectory]
  rcases note_writes m text with hsame | ⟨hd, hd', hwrite⟩
  · rw [hsame]
    exact hexec
  · exact FileTree.write_isExecutable hwrite hexec

/-- A change that is taken down takes it away or leaves it. -/
theorem change (h : Trusts m₀ m p) (tool : Option Command) (files : FileTree)
    (hfiles : m'.files = files) (hdirectory : m'.directory = m.directory)
    (hchanges : m'.changes = { tool, before := m.files, after := files } :: m.changes) :
    Trusts m₀ m' p := by
  obtain ⟨new, hnew, hstands⟩ := h.stands
  refine ⟨h.looked, hdirectory.trans h.directory,
    { tool, before := m.files, after := files } :: new, by rw [hchanges, hnew]; rfl, ?_⟩
  rcases hstands with hexec | ⟨ch, hmem, hdisables⟩
  · cases hafter : m'.isExecutable p with
    | true => exact .inl rfl
    | false =>
      refine .inr ⟨_, List.mem_cons_self, ?_, ?_⟩
      · rw [← h.directory]
        exact hexec
      · rw [← h.directory, ← hdirectory, ← hfiles]
        exact hafter
  · exact .inr ⟨ch, List.mem_cons_of_mem _ hmem, hdisables⟩

theorem start (h : Trusts m₀ m p) (c : Command) : Trusts m₀ (c.start.on m).2 p := by
  rw [Command.start_on]
  cases m.tools m.commands c m.directory m.files with
  | error fault => exact h.alike rfl rfl rfl
  | ok ended => exact h.change (some c) ended.files rfl rfl rfl

end Machine.Trusts

end Regression
