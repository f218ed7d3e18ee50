import Regression.Proofs.Steps
import Regression.Walk

namespace Regression

namespace FileTree

/-- A tree as a system keeps it: every part of a place is a name, and each place is there once. -/
structure WellFormed (t : FileTree) : Prop where
  named : ∀ e ∈ t.entries, ∀ s ∈ e.1, IsName s
  once : (t.entries.map (·.1)).Nodup

variable {t : FileTree} {l : Location} {s : String} {n : Node}

theorem mem_children : (s, n) ∈ t.children l ↔ (s :: l, n) ∈ t.entries := by
  simp only [children, List.mem_mergeSort, List.mem_filterMap]
  constructor
  · rintro ⟨⟨l', n'⟩, hmem, hc⟩
    cases l' with
    | nil => cases hc
    | cons s' l' =>
      simp only [child?, Option.ite_none_right_eq_some, Option.some.injEq, Prod.mk.injEq] at hc
      obtain ⟨rfl, rfl, rfl⟩ := hc
      exact hmem
  · intro hmem
    exact ⟨_, hmem, by simp [child?]⟩

theorem lookup_of_mem {es : List (Location × Node)} (once : (es.map (·.1)).Nodup)
    (h : (l, n) ∈ es) : es.lookup l = some n := by
  induction es with
  | nil => cases h
  | cons e es ih =>
    obtain ⟨l', n'⟩ := e
    obtain ⟨hfresh, hrest⟩ := List.nodup_cons.mp once
    rcases List.mem_cons.mp h with he | hmem
    · cases he
      exact List.lookup_cons_self
    · have hne : (l == l') = false := by
        apply beq_eq_false_iff_ne.mpr
        rintro rfl
        exact hfresh (List.mem_map.mpr ⟨_, hmem, rfl⟩)
      rw [List.lookup_cons, hne]
      exact ih hrest hmem

theorem node?_of_mem (ht : t.WellFormed) (h : (l, n) ∈ t.entries) : t.node? l = some n :=
  lookup_of_mem ht.once h

/-- The names of the directories in a directory, links left out, in byte order. -/
def subdirectories (t : FileTree) (l : Location) : List String :=
  (t.children l).filterMap fun (s, n) => if n.isDirectory then some s else none

theorem mem_subdirectories :
    s ∈ t.subdirectories l ↔ ∃ m, (s :: l, Node.directory m) ∈ t.entries := by
  simp only [subdirectories, List.mem_filterMap, Option.ite_none_right_eq_some, Option.some.injEq]
  constructor
  · rintro ⟨⟨s', n⟩, hmem, hd, rfl⟩
    cases n with
    | directory m => exact ⟨m, mem_children.mp hmem⟩
    | _ => cases hd
  · rintro ⟨m, hmem⟩
    exact ⟨(s, .directory m), mem_children.mpr hmem, rfl, rfl⟩

theorem children_sorted (t : FileTree) (l : Location) :
    (t.children l).Pairwise fun a b => a.1 ≤ b.1 := by
  have hsorted : (t.children l).Pairwise fun a b => decide (a.1 ≤ b.1) = true := by
    refine List.pairwise_mergeSort ?_ ?_ _
    · intro a b c hab hbc
      simp only [decide_eq_true_eq] at hab hbc ⊢
      exact String.le_trans hab hbc
    · intro a b
      simpa using String.le_total a.1 b.1
  simpa using hsorted

/-- The name of a place in a directory. -/
def nameIn (l : Location) : Location → Option String
  | name :: l' => if l' = l then some name else none
  | [] => none

theorem nameIn_eq_some {l' : Location} : nameIn l l' = some s ↔ l' = s :: l := by
  cases l' with
  | nil => simp [nameIn]
  | cons s' l' =>
    simp only [nameIn, Option.ite_none_right_eq_some, Option.some.injEq, List.cons.injEq]
    exact And.comm

theorem children_once (ht : t.WellFormed) (l : Location) :
    ((t.children l).map (·.1)).Nodup := by
  have hperm : (t.children l).Perm (t.entries.filterMap (child? l)) := List.mergeSort_perm ..
  have hnames : (t.entries.filterMap (child? l)).map (·.1) =
      (t.entries.map (·.1)).filterMap (nameIn l) := by
    rw [List.map_filterMap, List.filterMap_map]
    congr 1
    funext ⟨l', n⟩
    cases l' with
    | nil => rfl
    | cons s l' =>
      simp only [child?, nameIn, Function.comp]
      split <;> rfl
  rw [(hperm.map _).nodup_iff, hnames]
  refine List.Pairwise.filterMap (nameIn l) ?_ ht.once
  rintro l₁ l₂ hne s h₁ _ h₂ rfl
  exact hne ((nameIn_eq_some.mp h₁).trans (nameIn_eq_some.mp h₂).symm)

/-- The names in a directory stand in byte order, each once. -/
theorem children_strict (ht : t.WellFormed) (l : Location) :
    ((t.children l).map (·.1)).Pairwise (· < ·) := by
  have hle := (children_sorted t l).and (List.pairwise_map.mp (children_once ht l))
  refine List.pairwise_map.mpr (hle.imp ?_)
  rintro e e' ⟨hle, hne⟩
  exact String.not_le.mp fun hge => hne (String.le_antisymm hle hge)

/-- So do those of its subdirectories. -/
theorem subdirectories_sorted (ht : t.WellFormed) (l : Location) :
    (t.subdirectories l).Pairwise (· < ·) := by
  refine (List.pairwise_map.mp (children_strict ht l)).filterMap _ ?_
  rintro ⟨s₁, n₁⟩ ⟨s₂, n₂⟩ hlt s h₁ s' h₂
  simp only [Option.ite_none_right_eq_some, Option.some.injEq] at h₁ h₂
  obtain ⟨-, rfl⟩ := h₁
  obtain ⟨-, rfl⟩ := h₂
  exact hlt

/-- What is listed is what lies in a directory. -/
theorem list_ok {cwd : Location} {p : Path} {entries : List (String × Node)}
    (h : t.list cwd p = .ok entries) : ∃ l, entries = t.children l := by
  unfold list at h
  cases hfind : t.find cwd p with
  | error fault =>
    rw [hfind] at h
    cases h
  | ok found =>
    obtain ⟨l, n⟩ := found
    rw [hfind] at h
    simp only [bind, Except.bind] at h
    split at h
    · next mode =>
      split at h
      · cases h
        exact ⟨_, rfl⟩
      · cases h
    · cases h

/-- The number of names on the longest route from the root. -/
def height (t : FileTree) : Nat := (t.entries.map fun e => e.1.length).foldr max 0

theorem length_le_height (h : (l, n) ∈ t.entries) : l.length ≤ t.height := by
  rw [height]
  revert h
  induction t.entries with
  | nil => simp
  | cons e es ih =>
    intro h
    simp only [List.map_cons, List.foldr_cons]
    rcases List.mem_cons.mp h with rfl | hmem
    · exact Nat.le_max_left ..
    · exact Nat.le_trans (ih hmem) (Nat.le_max_right ..)

end FileTree

end Regression
