import Mathlib.Data.List.Basic
import Regression.Proofs.Listing

namespace Regression

/-- What a walk goes by: the files, the place it works in, its options and pass, and what the
markers of each directory say. -/
structure Terrain where
  files : FileTree
  cwd : Location
  options : WalkOptions
  mode : RunMode
  directive : Path → SkipDirective

namespace Terrain

variable {τ : Type} (w : Terrain) (l : Location) (d : Path)

/-- A directory that this process may list and look names up in. -/
def Accessible : Prop :=
  w.files.isDirectory w.cwd d ∧ w.files.isThere w.cwd (d / ".") ∧ (w.files.list w.cwd d).isOk

instance : Decidable (w.Accessible d) := inferInstanceAs (Decidable (_ ∧ _ ∧ _))

/-- A directory for debug symbols, or one below it. -/
def InBundle : Prop :=
  ∃ c ∈ d.components, ".dSYM".toList <:+ (Path.Component.text c).toList

instance : Decidable (InBundle d) := inferInstanceAs (Decidable (∃ c ∈ _, _))

/-- The markers leave a directory out with all below it. -/
def Prunes : Prop :=
  w.options.cleanOnly = false ∧ (w.directive d).prunesChildren

instance : Decidable (w.Prunes d) := inferInstanceAs (Decidable (_ ∧ _))

/-- A name that makes the directory of its file worth testing. -/
def TestName (s : String) : Prop :=
  if w.mode = .performance then ("." ++ w.options.perfKeys).toList <:+ s.toList
  else s = "PRETEST" ∨ ∃ ending ∈ testEndings, ending.toList <:+ s.toList

instance (s : String) : Decidable (w.TestName s) := by
  unfold TestName
  infer_instance

/-- A directory, at the place `l`, that holds something to test. -/
def Eligible : Prop :=
  (∃ e ∈ w.files.children l, e.2.isDirectory = false ∧ w.TestName e.1) ∨
    w.mode = .execute ∧ w.files.isExecutable w.cwd (d / "sub_test")

instance : Decidable (w.Eligible l d) := inferInstanceAs (Decidable ((∃ e ∈ _, _) ∨ _ ∧ _))

/-- A directory that is handed over. -/
def Chosen : Prop :=
  (w.options.cleanOnly ∨ w.directive d = .test) ∧ (w.mode = .graph ∨ w.Eligible l d)

instance : Decidable (w.Chosen l d) := inferInstanceAs (Decidable ((_ ∨ _) ∧ (_ ∨ _)))

/-- What one directory adds to a record: what is asked about it, and what is done there. -/
def adds (asks does : Path → List τ) : List τ :=
  (if w.options.cleanOnly then [] else asks d) ++ if w.Chosen l d then does d else []

theorem height_lt {s : String} (hs : s ∈ w.files.subdirectories l) :
    w.files.height - (s :: l).length < w.files.height - l.length := by
  obtain ⟨m, hmem⟩ := FileTree.mem_subdirectories.mp hs
  have := FileTree.length_le_height hmem
  simp only [List.length_cons] at this ⊢
  omega

/-- The directories that a walk from `d`, at the place `l`, hands over. -/
def selected (l : Location) (d : Path) : List Path :=
  if w.Accessible d ∧ ¬InBundle d ∧ ¬w.Prunes d then
    (if w.Chosen l d then [d] else []) ++
      if w.options.recurse then
        (w.files.subdirectories l).attach.flatMap fun s => selected (s.1 :: l) (d / s.1)
      else []
  else []
termination_by w.files.height - l.length
decreasing_by exact w.height_lt l s.2

/-- What a walk from `d` adds up to where every directory that it works on adds something, those
included whose markers turn it away. -/
def tour (adds : Location → Path → List τ) (l : Location) (d : Path) : List τ :=
  if w.Accessible d ∧ ¬InBundle d then
    adds l d ++
      if w.options.recurse ∧ ¬w.Prunes d then
        (w.files.subdirectories l).attach.flatMap fun s => tour adds (s.1 :: l) (d / s.1)
      else []
  else []
termination_by w.files.height - l.length
decreasing_by exact w.height_lt l s.2

/-- What a walk from a path adds up to. A link to a directory is passed through. -/
def round (adds : Location → Path → List τ) (root : Path) : List τ :=
  match w.files.findItself w.cwd root with
  | .ok (l, .directory _) => w.tour adds l root
  | .ok (_, .link _) =>
    match w.files.find w.cwd root with
    | .ok (l, .directory _) =>
      if w.options.recurse ∧ (w.files.list w.cwd root).isOk then
        (w.files.subdirectories l).flatMap fun s => w.tour adds (s :: l) (root / s)
      else []
    | _ => []
  | _ => []

variable {w l} in
theorem round_of_directory {adds : Location → Path → List τ} {root : Path} {dm : Mode}
    (h : w.files.findItself w.cwd root = .ok (l, .directory dm)) :
    w.round adds root = w.tour adds l root := by
  rw [round, h]

theorem selected_eq : w.selected l d =
    if w.Accessible d ∧ ¬InBundle d ∧ ¬w.Prunes d then
      (if w.Chosen l d then [d] else []) ++
        if w.options.recurse then
          (w.files.subdirectories l).flatMap fun s => w.selected (s :: l) (d / s)
        else []
    else [] := by
  rw [selected]
  simp only [List.flatMap_subtype, List.unattach_attach]

theorem tour_eq (adds : Location → Path → List τ) : w.tour adds l d =
    if w.Accessible d ∧ ¬InBundle d then
      adds l d ++
        if w.options.recurse ∧ ¬w.Prunes d then
          (w.files.subdirectories l).flatMap fun s => w.tour adds (s :: l) (d / s)
        else []
    else [] := by
  rw [tour]
  simp only [List.flatMap_subtype, List.unattach_attach]

theorem not_prunes_of_chosen {w : Terrain} {l : Location} {d : Path} (h : w.Chosen l d) :
    ¬w.Prunes d := by
  rintro ⟨hclean, hprune⟩
  rcases h.1 with hc | ht
  · rw [hclean] at hc
    cases hc
  · rw [ht] at hprune
    cases hprune

/-- A walk on which each directory that is handed over adds itself. -/
theorem tour_chosen : w.tour (fun l d => if w.Chosen l d then [d] else []) l d =
    w.selected l d := by
  induction l, d using selected.induct w with
  | case1 l d h ih =>
    have hbelow : ((w.files.subdirectories l).flatMap fun s =>
          w.tour (fun l d => if w.Chosen l d then [d] else []) (s :: l) (d / s)) =
        (w.files.subdirectories l).flatMap fun s => w.selected (s :: l) (d / s) :=
      List.flatMap_congr fun s hs => ih ⟨s, hs⟩
    rw [tour_eq, selected_eq, if_pos ⟨h.1, h.2.1⟩, if_pos h, hbelow]
    simp [h.2.2]
  | case2 l d h =>
    rw [selected_eq, if_neg h, tour_eq]
    split
    · next ho =>
      have hp : w.Prunes d := Decidable.byContradiction fun hp => h ⟨ho.1, ho.2, hp⟩
      have hc : ¬w.Chosen l d := fun hc => not_prunes_of_chosen hc hp
      simp [hp, hc]
    · rfl

end Terrain

end Regression
