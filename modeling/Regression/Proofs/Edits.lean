import Regression.Proofs.Lookup
import Regression.Proofs.Removal

namespace Regression.FileTree

open Text (Bytes)

variable {t t' : FileTree} {cwd l : Location} {p : Path}

theorem checkHolder_ok {u : Unit} (h : t.checkHolder l = .ok u) :
    ∃ m, t.node? l.tail = some (.directory m) := by
  unfold checkHolder at h
  split at h
  · next m hm => exact ⟨m, hm⟩
  · cases h
  · cases h

theorem reach_absent {follow : Bool} {xs : List String} {start : Location}
    (h : t.reach follow start xs = .absent l) : t.node? l = none := by
  induction xs generalizing start with
  | nil => cases h
  | cons s rest ih =>
    simp only [reach] at h
    repeat' split at h
    all_goals first | cases h; assumption | exact ih h | cases h

/-- Nothing lies where a route says so. -/
theorem travel_absent {follow : Bool} {links : Nat} {xs : List String} {start : Location}
    (h : t.travel follow links start xs = .ok (l, false)) : t.node? l = none := by
  induction links generalizing start xs with
  | zero =>
    rw [travel_eq] at h
    cases hr : t.reach follow start xs <;> rw [hr] at h <;> cases h
    exact reach_absent hr
  | succ links ih =>
    rw [travel_eq] at h
    cases hr : t.reach follow start xs <;> rw [hr] at h
    · cases h
    · cases h
      exact reach_absent hr
    · cases h
    · exact ih h

theorem locate_absent {follow : Bool} (h : t.locate follow cwd p = .ok (l, false)) :
    t.node? l = none := by
  obtain ⟨_, -, h⟩ := bind_ok h
  exact travel_absent h

theorem dropSeparators_eq (h : p.endsInSeparator = false) : dropSeparators p = p := by
  have hlast : (p.text.toList.reverse.dropWhile (· = '/')).reverse = p.text.toList := by
    cases ht : p.text.toList.reverse with
    | nil => simpa using ht.symm
    | cons c cs =>
      have htext : p.text.toList = cs.reverse ++ [c] := by
        rw [← List.reverse_reverse p.text.toList, ht, List.reverse_cons]
      have hc : c ≠ '/' := by simpa [Path.endsInSeparator, htext] using h
      simp [hc, htext]
  unfold dropSeparators
  rw [hlast]
  split
  · rfl
  · exact congrArg Path.mk String.ofList_toList

/-- What an edit that makes a directory has done. -/
theorem makeDirectory_ok (h : t.makeDirectory cwd p = .ok t') :
    ∃ l, t.node? l = none ∧ (∃ m, t.node? l.tail = some (.directory m)) ∧
      t' = t.put l (.directory .newDirectory) := by
  obtain ⟨_, -, h⟩ := bind_ok h
  obtain ⟨⟨l, there⟩, hl, h⟩ := bind_ok h
  cases there with
  | true => cases h
  | false =>
    obtain ⟨_, hholder, h⟩ := bind_ok h
    exact ⟨l, locate_absent hl, checkHolder_ok hholder, (Except.ok.inj h).symm⟩

/-- What each directory that is made does not take away from a tree is still there where all are
made. -/
theorem makeDirectories_rule {P : FileTree → Prop}
    (hstep : ∀ t t' p, t.makeDirectory cwd p = .ok t' → P t → P t')
    (hok : t.makeDirectories cwd p = .ok t') (ht : P t) : P t' := by
  unfold makeDirectories at hok
  split at hok
  · cases hok
    exact ht
  · revert hok
    generalize p.ancestors = ps
    intro hok
    induction ps generalizing t' with
    | nil =>
      cases hok
      exact ht
    | cons p parents ih =>
      rw [makeDirectories.make] at hok
      split at hok
      · cases hok
        exact ht
      · split at hok
        · next t₁ hmade =>
          cases hok
          exact hstep t _ p hmade ht
        · obtain ⟨t₁, hparents, hok⟩ := bind_ok hok
          have h₁ := ih hparents
          split at hok
          · next t₂ hmade =>
            cases hok
            exact hstep t₁ _ p hmade h₁
          · split at hok
            · cases hok
              exact h₁
            · cases hok
        · split at hok
          · cases hok
            exact ht
          · cases hok

/-- What opening a file for writing has done: dropped the contents of a regular file or kept them,
found a device, or made an empty file where nothing was. -/
inductive Opened (t : FileTree) (l : Location) (how : Opening) (m : Mode) :
    FileTree → Handle → Prop where
  | file {serial : Nat} {mode : Mode} {old : Bytes} (h : t.node? l = some (.file serial mode old)) :
    Opened t l how m (if how = .afresh then t.mapContents serial fun _ => [] else t)
      (.file serial (if how = .append then none else some 0))
  | device {room : Option Nat} (h : t.node? l = some (.device room)) : Opened t l how m t (.device l)
  | made (h : t.node? l = none) (holder : ∃ mode, t.node? l.tail = some (.directory mode)) :
    Opened t l how m { t.put l (.file t.serial m []) with serial := t.serial + 1 }
      (.file t.serial (if how = .append then none else some 0))

theorem openFile_ok {how : Opening} {m : Mode} {hd : Handle}
    (h : t.openFile cwd p how m = .ok (t', hd)) :
    ∃ l there, t.locate true cwd p = .ok (l, there) ∧ Opened t l how m t' hd := by
  obtain ⟨_, -, h⟩ := bind_ok h
  obtain ⟨⟨l, there⟩, hl, h⟩ := bind_ok h
  have hforDirectory : (p.text.toList.getLast? == some '/') = p.endsInSeparator := rfl
  simp only [hforDirectory] at hl h
  cases hp : p.endsInSeparator with
  | true =>
    simp only [hp] at h
    cases h
  | false =>
    rw [dropSeparators_eq hp, hp] at hl
    simp only [hp] at h
    refine ⟨l, there, hl, ?_⟩
    cases there with
    | true =>
      simp only [Bool.false_eq_true, ↓reduceIte] at h
      split at h
      · next s m₀ c hn =>
        split at h
        · cases h
        · cases h
          exact .file hn
      · cases h
      · next room hn =>
        cases h
        exact .device hn
      · cases h
    | false =>
      obtain ⟨_, hholder, h⟩ := bind_ok h
      cases h
      exact .made (locate_absent hl) (checkHolder_ok hholder)

theorem setMode_ok {m : Mode} (h : t.setMode cwd p m = .ok t') :
    ∃ l n, t.node? l = some n ∧ t' = t.put l (n.withMode m) := by
  obtain ⟨⟨l, n⟩, hfind, h⟩ := bind_ok h
  obtain ⟨-, -, hn⟩ := findAt_ok hfind
  exact ⟨l, n, hn, (Except.ok.inj h).symm⟩

/-- A copy is opened, written and, where it is a file, given the mode of what was copied. -/
theorem copyFile_ok {source target : Path} (h : t.copyFile cwd source target = .ok t') :
    ∃ m t₁ hd bytes t₂ hd', t.openFile cwd target .afresh m = .ok (t₁, hd) ∧
      t₁.write hd bytes = .ok (t₂, hd') ∧ (t₂.setMode cwd target m = .ok t' ∨ t' = t₂) := by
  obtain ⟨⟨l, n⟩, -, h⟩ := bind_ok h
  cases n with
  | file k m c =>
    simp only at h
    split at h
    · cases h
    · obtain ⟨⟨t₁, hd⟩, hopen, h⟩ := bind_ok h
      obtain ⟨bytes, -, h⟩ := bind_ok h
      obtain ⟨⟨t₂, hd'⟩, hwrite, h⟩ := bind_ok h
      refine ⟨m, t₁, hd, bytes, t₂, hd', hopen, hwrite, ?_⟩
      cases hd with
      | file => exact .inl h
      | device => exact .inr (Except.ok.inj h).symm
  | _ => cases h

end Regression.FileTree
