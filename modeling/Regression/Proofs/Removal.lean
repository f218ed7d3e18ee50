import Regression.Proofs.Outline

namespace Regression.FileTree

variable {t t' : FileTree} {cwd l l' : Location} {p : Path}

theorem lookup_kept (es : List (Location × Node)) (keep : Location → Bool) (l : Location) :
    (es.filter fun e => keep e.1).lookup l = if keep l then es.lookup l else none := by
  induction es with
  | nil => simp
  | cons e es ih =>
    obtain ⟨l', n⟩ := e
    by_cases he : l = l'
    · subst he
      cases hk : keep l with
      | false => simpa [hk] using ih
      | true => simp [hk]
    · have hne : (l == l') = false := beq_eq_false_iff_ne.mpr he
      cases hk : keep l' with
      | false => simp [hk, List.lookup_cons, hne, ih]
      | true => simp [hk, List.lookup_cons, hne, ih]

/-- Taking a place away takes away what lies at it or below, and nothing else. -/
theorem node?_prune (t : FileTree) (l l' : Location) :
    (t.prune l).node? l' = if l <:+ l' then none else t.node? l' := by
  rw [node?, prune, lookup_kept t.entries (fun l' => !l.isSuffixOf l')]
  by_cases h : l <:+ l'
  · simp [h, List.isSuffixOf_iff_suffix.mpr h]
  · have hf : l.isSuffixOf l' = false :=
      Bool.eq_false_iff.mpr fun ht => h (List.isSuffixOf_iff_suffix.mp ht)
    simp [h, hf, node?]

theorem prune_outline (t : FileTree) (l : Location) :
    t.outline.prune l = (t.prune l).outline := by
  simp only [prune, outline, List.filter_map, Function.comp_def]

theorem checkHolder_outline (t : FileTree) (l : Location) :
    t.outline.checkHolder l = t.checkHolder l := by
  simp only [checkHolder, node?_outline]
  cases t.node? l.tail with
  | none => rfl
  | some n => cases n <;> rfl

theorem isClearable_outline (t : FileTree) (l : Location) :
    t.outline.isClearable l = t.isClearable l := by
  simp only [isClearable, children_outline, List.isEmpty_map]
  simp only [outline, List.all_map]
  congr 1
  funext entry
  obtain ⟨l', n⟩ := entry
  cases n <;> rfl

theorem removeFile_outline (t : FileTree) (cwd : Location) (p : Path) :
    t.outline.removeFile cwd p = (t.removeFile cwd p).map outline := by
  simp only [removeFile, findItself, findAt_outline, checkHolder_outline, prune_outline]
  cases t.findAt false cwd p with
  | error f => rfl
  | ok found =>
    obtain ⟨l, n⟩ := found
    simp only [bind, Except.bind, Except.map, Node.isDirectory_outline]
    split
    · rfl
    · cases t.checkHolder l <;> rfl

theorem removeDirectories_outline (t : FileTree) (cwd : Location) (p : Path) :
    t.outline.removeDirectories cwd p = (t.removeDirectories cwd p).map outline := by
  simp only [removeDirectories, findItself, findAt_outline, checkHolder_outline, prune_outline,
    isClearable_outline, removeFile_outline]
  cases t.findAt false cwd p with
  | error f => rfl
  | ok found =>
    obtain ⟨l, n⟩ := found
    cases n with
    | directory m =>
      simp only [bind, Except.bind, Except.map, Node.outline]
      split
      · rfl
      · cases t.checkHolder l <;> rfl
    | _ => rfl

/-- Whether directories can be removed does not depend on what files hold. -/
theorem removeDirectories_isOk (h : t'.outline = t.outline) (cwd : Location) (p : Path) :
    (t'.removeDirectories cwd p).isOk = (t.removeDirectories cwd p).isOk := by
  have hsame : ((t'.removeDirectories cwd p).map outline).isOk =
      ((t.removeDirectories cwd p).map outline).isOk := by
    rw [← removeDirectories_outline, ← removeDirectories_outline, h]
  cases hr' : t'.removeDirectories cwd p <;> cases hr : t.removeDirectories cwd p <;>
    rw [hr', hr] at hsame <;> exact hsame

/-- The steps of an edit that succeeds have all succeeded. -/
theorem bind_ok {α β : Type} {x : Except Fault α} {f : α → Except Fault β} {b : β}
    (h : x >>= f = .ok b) : ∃ a, x = .ok a ∧ f a = .ok b := by
  cases x with
  | error fault => cases h
  | ok a => exact ⟨a, rfl, h⟩

/-- What is removed is one place, with all below it. -/
theorem removeFile_ok (h : t.removeFile cwd p = .ok t') :
    ∃ l n, t.findItself cwd p = .ok (l, n) ∧ n.isDirectory = false ∧ t' = t.prune l := by
  obtain ⟨⟨l, n⟩, hl, h⟩ := bind_ok h
  cases hn : n.isDirectory with
  | true =>
    simp only [hn] at h
    cases h
  | false =>
    simp only [hn] at h
    obtain ⟨_, -, h⟩ := bind_ok h
    exact ⟨l, n, hl, hn, (Except.ok.inj h).symm⟩

theorem removeDirectories_ok (h : t.removeDirectories cwd p = .ok t') :
    ∃ l n, t.findItself cwd p = .ok (l, n) ∧ t' = t.prune l := by
  obtain ⟨⟨l, n⟩, hl, h⟩ := bind_ok h
  cases n with
  | link target =>
    obtain ⟨l', n', hl', -, rfl⟩ := removeFile_ok h
    exact ⟨l', n', hl', rfl⟩
  | directory m =>
    simp only at h
    split at h
    · cases h
    · obtain ⟨_, -, h⟩ := bind_ok h
      exact ⟨l, _, hl, (Except.ok.inj h).symm⟩
  | _ => cases h

end Regression.FileTree
