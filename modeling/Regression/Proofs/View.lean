import Regression.Proofs.Lookup
import Regression.Proofs.Steady
import Regression.Proofs.Selection

namespace Regression

theorem Text.endsWith_iff {s tail : String} :
    Text.endsWith s tail = true ↔ tail.toList <:+ s.toList := List.isSuffixOf_iff_suffix

/-- A machine that works at `cwd` and whose files look, but for their contents, as `t`. -/
structure Machine.Shows (m : Machine) (t : FileTree) (cwd : Location) : Prop where
  files : m.files.outline = t.outline
  directory : m.directory = cwd

theorem Steady.shows {m m' : Machine} (h : Steady m m') : m'.Shows m.files m.directory :=
  ⟨h.files, h.directory⟩

namespace Machine.Shows

variable {t : FileTree} {cwd l : Location} {m : Machine}

theorem isDirectory (h : m.Shows t cwd) (p : Path) : m.isDirectory p = t.isDirectory cwd p := by
  rw [Machine.isDirectory, ← FileTree.isDirectory_outline, h.files, h.directory,
    FileTree.isDirectory_outline]

theorem isFile (h : m.Shows t cwd) (p : Path) : m.isFile p = t.isFile cwd p := by
  rw [Machine.isFile, ← FileTree.isFile_outline, h.files, h.directory, FileTree.isFile_outline]

theorem isThere (h : m.Shows t cwd) (p : Path) : m.isThere p = t.isThere cwd p := by
  rw [Machine.isThere, ← FileTree.isThere_outline, h.files, h.directory, FileTree.isThere_outline]

theorem isExecutable (h : m.Shows t cwd) (p : Path) :
    m.isExecutable p = t.isExecutable cwd p := by
  rw [Machine.isExecutable, ← FileTree.isExecutable_outline, h.files, h.directory,
    FileTree.isExecutable_outline]

theorem list (h : m.Shows t cwd) (p : Path) :
    (m.list p).map (List.map fun e => (e.1, e.2.outline)) =
      (t.list cwd p).map (List.map fun e => (e.1, e.2.outline)) := by
  rw [Machine.list, ← FileTree.list_outline, ← FileTree.list_outline, h.files, h.directory]

theorem list_isOk (h : m.Shows t cwd) (p : Path) : (m.list p).isOk = (t.list cwd p).isOk := by
  have := congrArg Except.isOk (h.list p)
  cases hm : m.list p <;> cases ht : t.list cwd p <;> rw [hm, ht] at this <;> exact this

theorem findItself (h : m.Shows t cwd) (p : Path) :
    (m.files.findItself m.directory p).map (fun found => (found.1, found.2.outline)) =
      (t.findItself cwd p).map fun found => (found.1, found.2.outline) := by
  rw [FileTree.findItself, FileTree.findItself, ← FileTree.findAt_outline,
    ← FileTree.findAt_outline, h.files, h.directory]

theorem findItself_ok (h : m.Shows t cwd) {p : Path} {n : Node}
    (hf : t.findItself cwd p = .ok (l, n)) :
    ∃ n', m.files.findItself m.directory p = .ok (l, n') ∧ n'.outline = n.outline := by
  have hfound := h.findItself p
  rw [hf] at hfound
  cases hm : m.files.findItself m.directory p with
  | error f =>
    rw [hm] at hfound
    cases hfound
  | ok found =>
    rw [hm] at hfound
    obtain ⟨l', n'⟩ := found
    obtain ⟨rfl, hn⟩ := Prod.mk.inj (Except.ok.inj hfound)
    exact ⟨n', rfl, hn⟩

theorem findItself_error (h : m.Shows t cwd) {p : Path} {f : Fault}
    (hf : t.findItself cwd p = .error f) : m.files.findItself m.directory p = .error f := by
  have hfound := h.findItself p
  rw [hf] at hfound
  cases hm : m.files.findItself m.directory p with
  | error f' =>
    rw [hm] at hfound
    exact congrArg _ (Except.error.inj hfound)
  | ok found =>
    rw [hm] at hfound
    cases hfound

end Machine.Shows

namespace Terrain

variable {w : Terrain} {m : Machine} {l : Location} {d : Path}

theorem isAccessible_iff (h : m.Shows w.files w.cwd) :
    Walk.isAccessible m d = true ↔ w.Accessible d := by
  simp only [Walk.isAccessible, Accessible, h.isDirectory, h.isThere, h.list_isOk,
    Bool.and_eq_true, and_assoc]

theorem inSymbolBundle_iff : Walk.inSymbolBundle d = true ↔ InBundle d := by
  simp only [Walk.inSymbolBundle, InBundle, List.any_eq_true]
  refine exists_congr fun c => and_congr_right fun _ => ?_
  cases c with
  | name s => exact Text.endsWith_iff
  | _ => simp [Path.Component.text, List.suffix_cons_iff]

theorem list_ok {es : List (String × Node)} (h : w.files.list w.cwd d = .ok es) :
    ∃ l dm, w.files.find w.cwd d = .ok (l, .directory dm) ∧ es = w.files.children l := by
  simp only [FileTree.list, bind, Except.bind] at h
  cases hf : w.files.find w.cwd d with
  | error f =>
    rw [hf] at h
    cases h
  | ok found =>
    obtain ⟨l, n⟩ := found
    rw [hf] at h
    cases n with
    | directory dm =>
      simp only at h
      split at h
      · cases h
        exact ⟨l, dm, rfl, rfl⟩
      · cases h
    | _ => cases h

/-- An accessible directory is found, and what lies at its place is what it lists. -/
theorem Accessible.found (h : w.Accessible d) :
    ∃ l dm, w.files.find w.cwd d = .ok (l, .directory dm) ∧
      w.files.list w.cwd d = .ok (w.files.children l) := by
  obtain ⟨-, -, hlist⟩ := h
  cases hl : w.files.list w.cwd d with
  | error f =>
    rw [hl] at hlist
    cases hlist
  | ok es =>
    obtain ⟨l, dm, hf, rfl⟩ := list_ok hl
    exact ⟨l, dm, hf, rfl⟩

/-- What a machine lists in such a directory, the contents of files aside. -/
theorem list_shown (h : m.Shows w.files w.cwd) (hl : w.files.list w.cwd d = .ok (w.files.children l)) :
    ∃ es, m.list d = .ok es ∧
      es.map (fun e => (e.1, e.2.isDirectory)) =
        (w.files.children l).map fun e => (e.1, e.2.isDirectory) := by
  have he := h.list d
  rw [hl] at he
  cases hm : m.list d with
  | error f =>
    rw [hm] at he
    cases he
  | ok es =>
    rw [hm] at he
    refine ⟨es, rfl, ?_⟩
    have := congrArg (List.map fun e : String × Node => (e.1, e.2.isDirectory)) (Except.ok.inj he)
    simpa [Function.comp_def] using this

theorem below_shown (h : m.Shows w.files w.cwd) (hl : w.files.list w.cwd d = .ok (w.files.children l)) :
    Walk.below m d = (w.files.subdirectories l).map (d / ·) := by
  obtain ⟨es, hm, he⟩ := list_shown h hl
  have := congrArg (List.filterMap fun e : String × Bool => if e.2 then some (d / e.1) else none) he
  simp only [List.filterMap_map, Function.comp_def] at this
  simp only [Walk.below, hm, FileTree.subdirectories, List.map_filterMap]
  rw [this]
  congr 1
  funext e
  split <;> rfl

theorem testName_iff {s : String} :
    Walk.isTestName w.options w.mode s = true ↔ w.TestName s := by
  rw [TestName]
  cases hm : w.mode with
  | performance => exact Text.endsWith_iff
  | _ =>
    simp only [Walk.isTestName, Walk.pretestName, Bool.or_eq_true, beq_iff_eq, List.any_eq_true,
      Text.endsWith_iff, reduceCtorEq, ↓reduceIte]

theorem hasTests_iff (h : m.Shows w.files w.cwd) (hl : w.files.list w.cwd d = .ok (w.files.children l)) :
    Walk.hasTests m w.options d w.mode = true ↔ w.Eligible l d := by
  obtain ⟨es, hm, he⟩ := list_shown h hl
  have hany : (es.any fun e => !e.2.isDirectory && Walk.isTestName w.options w.mode e.1) = true ↔
      ∃ e ∈ w.files.children l, e.2.isDirectory = false ∧ w.TestName e.1 := by
    have := congrArg (List.any · fun e => !e.2 && Walk.isTestName w.options w.mode e.1) he
    simp only [List.any_map, Function.comp_def] at this
    rw [this]
    simp only [List.any_eq_true, Bool.and_eq_true, Bool.not_eq_true', testName_iff]
  simp only [Walk.hasTests, hm, Bool.or_eq_true, hany, Bool.and_eq_true, decide_eq_true_eq,
    h.isExecutable, Eligible, Walk.runnerName]

end Terrain

end Regression
