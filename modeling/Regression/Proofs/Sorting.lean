import Regression.Proofs.Lines
import Regression.Proofs.Notes
import Regression.Proofs.Spot
import Regression.Session

namespace Regression

namespace FileTree

variable {t u : FileTree} {q : Location} {n n' : Node}

/-- A directory is found there and not here only if something other than a place where routes end has
changed. -/
theorem isDirectory_elsewhere (hsame : ∀ l, l ≠ q → u.node? l = t.node? l) (hq : Ends (t.node? q))
    (hq' : Ends (u.node? q)) (cwd : Location) (p : Path) (h : t.isDirectory cwd p = true) :
    u.isDirectory cwd p = true := by
  unfold isDirectory at h
  split at h
  · next l n hfind =>
    have hspot := spot_elsewhere hsame hq hq' (spot_of_find hfind)
    have hne : l ≠ q := by
      rintro rfl
      have hn := (spot_ok.mp (spot_of_find hfind)).2
      have hplain := hq n hn.symm
      rw [h] at hplain
      cases hplain.1
    rw [hsame l hne, ← (spot_ok.mp (spot_of_find hfind)).2] at hspot
    rw [isDirectory, find_of_spot hspot]
    exact h
  · cases h

theorem isFile_elsewhere (hsame : ∀ l, l ≠ q → u.node? l = t.node? l) (hq : t.node? q = some n)
    (hq' : u.node? q = some n') (hn : n.isDirectory = false ∧ n.isLink = false)
    (hn' : n'.isDirectory = false ∧ n'.isLink = false) (hfile : n.isFile = true → n'.isFile = true)
    (cwd : Location) (p : Path) (h : t.isFile cwd p = true) : u.isFile cwd p = true := by
  have hends : Ends (t.node? q) := by
    rw [hq]
    rintro _ ⟨⟩
    exact hn
  have hends' : Ends (u.node? q) := by
    rw [hq']
    rintro _ ⟨⟩
    exact hn'
  unfold isFile at h
  split at h
  · next l found hfind =>
    have hold := (spot_ok.mp (spot_of_find hfind)).2
    have hspot := spot_elsewhere hsame hends hends' (spot_of_find hfind)
    by_cases hl : l = q
    · subst hl
      rw [hq] at hold
      cases hold
      rw [hq'] at hspot
      rw [isFile, find_of_spot hspot]
      exact hfile h
    · rw [hsame l hl, ← hold] at hspot
      rw [isFile, find_of_spot hspot]
      exact h
  · cases h

/-- Two trees in which the same paths lead to directories and to regular files. -/
def SameKinds (t u : FileTree) : Prop :=
  ∀ cwd p, u.isDirectory cwd p = t.isDirectory cwd p ∧ u.isFile cwd p = t.isFile cwd p

theorem SameKinds.refl (t : FileTree) : SameKinds t t := fun _ _ => ⟨rfl, rfl⟩

theorem SameKinds.of_outline (h : u.outline = t.outline) : SameKinds t u := by
  intro cwd p
  constructor
  · rw [← isDirectory_outline, h, isDirectory_outline]
  · rw [← isFile_outline, h, isFile_outline]

/-- What is written makes no path lead to another kind of thing. -/
theorem write_sameKinds {hd hd' : Handle} {bytes : Text.Bytes}
    (h : t.write hd bytes = .ok (u, hd')) : SameKinds t u := by
  cases hd with
  | file serial offset =>
    cases offset with
    | none =>
      cases h
      exact .of_outline (outline_mapContents ..)
    | some n =>
      cases h
      exact .of_outline (outline_mapContents ..)
  | device d =>
    simp only [write] at h
    split at h
    · next room hroom =>
      split at h
      · cases h
        -- The room of the device is less, and it is a device still.
        have hsame : ∀ l, l ≠ d →
            (t.put d (.device (some (room - bytes.length)))).node? l = t.node? l :=
          fun l hl => by rw [node?_put, if_neg hl]
        have hnew : (t.put d (.device (some (room - bytes.length)))).node? d =
            some (.device (some (room - bytes.length))) := by rw [node?_put, if_pos rfl]
        have hends : ∀ {t : FileTree} {room : Option Nat},
            t.node? d = some (.device room) → Ends (t.node? d) := by
          intro t room hd
          rw [hd]
          rintro _ ⟨⟩
          exact ⟨rfl, rfl⟩
        have hback : ∀ l, l ≠ d →
            t.node? l = (t.put d (.device (some (room - bytes.length)))).node? l :=
          fun l hl => (hsame l hl).symm
        intro cwd p
        constructor
        · rw [Bool.eq_iff_iff]
          exact ⟨isDirectory_elsewhere hback (hends hnew) (hends hroom) cwd p,
            isDirectory_elsewhere hsame (hends hroom) (hends hnew) cwd p⟩
        · rw [Bool.eq_iff_iff]
          exact ⟨isFile_elsewhere hback hnew hroom ⟨rfl, rfl⟩ ⟨rfl, rfl⟩ (fun h => h) cwd p,
            isFile_elsewhere hsame hroom hnew ⟨rfl, rfl⟩ ⟨rfl, rfl⟩ (fun h => h) cwd p⟩
      · cases h
    · cases h
      exact .refl t

end FileTree

variable {m m' : Machine}

theorem classify_sameKinds (hdirectory : m'.directory = m.directory)
    (h : m.files.SameKinds m'.files) (argument cwd : Path) :
    Target.classify m' argument cwd = Target.classify m argument cwd := by
  unfold Target.classify Machine.isDirectory Machine.isFile
  rw [hdirectory]
  simp only [(h _ _).1, (h _ _).2]

/-- A message changes what lies at no path but for what is written there. -/
theorem note_sameKinds (m : Machine) (text : String) :
    m.files.SameKinds ((note text).on m).2.files := by
  cases hlog : m.log with
  | memory messages =>
    rw [note_on_memory hlog]
    exact .refl _
  | file l =>
    rw [note_on_file hlog]
    cases l.handle with
    | none => exact .refl _
    | some hd =>
      simp only
      split
      · next hwrite => exact FileTree.write_sameKinds hwrite
      · exact .refl _

namespace Session

variable {s : Session} {targets : List Path} {sorted : List Target}

/-- The report of a target that names nothing. -/
def complaint (target : Path) : String :=
  "[Error: " ++ target.text ++ " is not a valid file or directory]"

/-- What has become of some targets: `sorted` on the way from `m` to `m'`. -/
structure Sorts (s : Session) (m : Machine) (targets : List Path) (sorted : List Target)
    (m' : Machine) : Prop where
  sorted : sorted = targets.filterMap fun target => Target.classify m target s.cwd
  told : m'.notes.reverse = m.notes.reverse ++
    (targets.filter fun target => (Target.classify m target s.cwd).isNone).map complaint
  classified : ∀ argument cwd, Target.classify m' argument cwd = Target.classify m argument cwd

theorem sortTarget_ok {target : Path} {found : Option Target}
    (h : (s.sortTarget target).on m = (.ok found, m')) :
    found = Target.classify m target s.cwd ∧
      m'.notes.reverse = m.notes.reverse ++ (if found.isNone then [complaint target] else []) ∧
      ∀ argument cwd, Target.classify m' argument cwd = Target.classify m argument cwd := by
  unfold sortTarget at h
  rw [Job.on_bind_ok (Job.on_get m)] at h
  simp only at h
  cases hfound : Target.classify m target s.cwd with
  | none =>
    rw [hfound, if_pos Option.isNone_none] at h
    obtain ⟨_, m₁, hnote, h⟩ := Job.bind_ok h
    rw [Job.on_pure] at h
    cases h
    have hkinds := note_sameKinds m (complaint target)
    obtain ⟨files, log, console, hrecord⟩ := note_records m (complaint target)
    have hm' : ((note (complaint target)).on m).2 = m' := congrArg Prod.snd hnote
    rw [hm'] at hkinds hrecord
    have hdirectory : m'.directory = m.directory := by rw [hrecord]
    refine ⟨rfl, ?_, classify_sameKinds hdirectory hkinds⟩
    have htrim : Text.trimEnd (complaint target) = complaint target :=
      Text.trimEnd_seen (t := " is not a valid file or directory]") (c := ']') (by decide)
        (by decide) _
    have htold : m'.notes = complaint target :: m.notes := by rw [hrecord, htrim]
    rw [htold, List.reverse_cons]
    rfl
  | some t =>
    rw [hfound, if_neg (by simp), Job.on_pure] at h
    cases h
    exact ⟨rfl, (List.append_nil _).symm, fun _ _ => rfl⟩

theorem sortTargets_ok (h : (s.sortTargets targets).on m = (.ok sorted, m')) :
    s.Sorts m targets sorted m' := by
  induction targets generalizing m sorted with
  | nil =>
    cases h
    exact ⟨rfl, (List.append_nil _).symm, fun _ _ => rfl⟩
  | cons target rest ih =>
    rw [sortTargets] at h
    obtain ⟨first, m₁, hfirst, h⟩ := Job.bind_ok h
    obtain ⟨others, m₂, hothers, h⟩ := Job.bind_ok h
    cases h
    obtain ⟨hclass, htold, hsame⟩ := sortTarget_ok hfirst
    obtain ⟨hsorted, htold', hsame'⟩ := ih hothers
    simp only [hsame] at hsorted htold'
    refine ⟨?_, ?_, fun argument cwd => (hsame' argument cwd).trans (hsame argument cwd)⟩
    · rw [hsorted, List.filterMap_cons, ← hclass]
      cases first <;> rfl
    · rw [htold', htold, List.filter_cons, ← hclass, List.append_assoc]
      cases first <;> rfl

/-- What a target names, by its whole path. -/
def named (s : Session) (target : Path) : Path := (s.cwd / target.text).normalize

theorem classify_named (m : Machine) (target : Path) :
    Target.classify m target s.cwd =
      if m.isDirectory (s.named target) then some (.directory (s.named target))
      else if m.isFile (s.named target) then some (.file (s.named target))
      else none := rfl

/-- The directories among the targets keep their order. -/
theorem Sorts.directories (h : s.Sorts m targets sorted m') :
    sorted.filterMap Target.directory? = (targets.map s.named).filter m.isDirectory := by
  rw [h.sorted, List.filterMap_filterMap, ← List.filterMap_eq_filter, List.filterMap_map]
  refine congrArg (fun f => targets.filterMap f) (funext fun target => ?_)
  simp only [Function.comp_apply, classify_named, Option.guard]
  by_cases hdirectory : m.isDirectory (s.named target) = true
  · simp [hdirectory, Target.directory?]
  · by_cases hfile : m.isFile (s.named target) = true <;> simp [hdirectory, hfile, Target.directory?]

/-- So do the files. -/
theorem Sorts.files (h : s.Sorts m targets sorted m') :
    sorted.filterMap Target.file? =
      (targets.map s.named).filter fun p => !m.isDirectory p && m.isFile p := by
  rw [h.sorted, List.filterMap_filterMap, ← List.filterMap_eq_filter, List.filterMap_map]
  refine congrArg (fun f => targets.filterMap f) (funext fun target => ?_)
  simp only [Function.comp_apply, classify_named, Option.guard]
  by_cases hdirectory : m.isDirectory (s.named target) = true
  · simp [hdirectory, Target.file?]
  · by_cases hfile : m.isFile (s.named target) = true <;> simp [hdirectory, hfile, Target.file?]

theorem classify_isNone (m : Machine) (target : Path) :
    (Target.classify m target s.cwd).isNone =
      (!m.isDirectory (s.named target) && !m.isFile (s.named target)) := by
  rw [classify_named]
  by_cases hdirectory : m.isDirectory (s.named target) = true
  · simp [hdirectory]
  · by_cases hfile : m.isFile (s.named target) = true <;> simp [hdirectory, hfile]

/-- Targets that all name nothing leave nothing to test. -/
theorem Sorts.isEmpty_iff (h : s.Sorts m targets sorted m') :
    (sorted.isEmpty && !targets.isEmpty) = true ↔
      targets ≠ [] ∧ ∀ target ∈ targets, Target.classify m target s.cwd = none := by
  rw [h.sorted, Bool.and_eq_true, List.isEmpty_iff, List.filterMap_eq_nil_iff, and_comm]
  simp

end Session

end Regression
