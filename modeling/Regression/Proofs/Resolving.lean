import Regression.Proofs.Detours
import Regression.Proofs.Spot

namespace Regression

namespace Path

variable {ps qs : List String} {s t : String} {p : Path}

/-- The pieces of a path are what it is written with. -/
theorem joined_pieces (p : Path) : joined p.pieces = p.text := by
  have hseparator : "/".toList = ['/'] := rfl
  have htexts : p.pieces.map String.toList = p.text.toList.splitOn '/' := by
    rw [pieces, List.map_map]
    exact (List.map_congr_left fun cs _ => String.toList_ofList).trans (List.map_id _)
  apply String.toList_inj.mp
  rw [joined, String.toList_intercalate, hseparator, htexts, List.intercalate_splitOn]

/-- Fewer pieces are written with fewer characters. -/
theorem joined_sublist (h : ps.Sublist qs) : (joined ps).toList.Sublist (joined qs).toList := by
  have hcons : ∀ (s : String) (ps : List String), ps ≠ [] →
      (joined (s :: ps)).toList = s.toList ++ '/' :: (joined ps).toList := by
    intro s ps hne
    rw [joined, String.intercalate_cons_of_ne_nil hne]
    simp [joined]
  induction h with
  | slnil => exact List.Sublist.refl _
  | @cons ps qs s h ih =>
    by_cases hqs : qs = []
    · subst hqs
      rw [List.sublist_nil.mp h]
      exact List.nil_sublist _
    · rw [hcons s qs hqs]
      exact ih.trans ((List.sublist_cons_self _ _).trans (List.sublist_append_right _ _))
  | @cons_cons ps qs s h ih =>
    by_cases hqs : qs = []
    · subst hqs
      rw [List.sublist_nil.mp h]
    · rw [hcons s qs hqs]
      by_cases hps : ps = []
      · subst hps
        have hsingle : joined [s] = s := String.intercalate_singleton
        rw [hsingle]
        exact List.sublist_append_left _ _
      · rw [hcons s ps hps]
        exact (List.Sublist.refl _).append (ih.cons_cons _)

theorem size_sublist {cs ds : List Char} (h : cs.Sublist ds) :
    (String.ofList cs).utf8ByteSize ≤ (String.ofList ds).utf8ByteSize := by
  have hcons : ∀ (c : Char) (cs : List Char), (String.ofList (c :: cs)).utf8ByteSize =
      c.utf8Size + (String.ofList cs).utf8ByteSize := by
    intro c cs
    have hsplit : String.ofList (c :: cs) = String.singleton c ++ String.ofList cs := by
      apply String.toList_inj.mp
      simp
    rw [hsplit, String.utf8ByteSize_append, String.utf8ByteSize_singleton]
  induction h with
  | slnil => exact Nat.le_refl _
  | cons c h ih =>
    rw [hcons]
    omega
  | cons_cons c h ih =>
    rw [hcons, hcons]
    omega

theorem routeOf_texts_eq (ps : List String) :
    (routeOf ps).map Component.text = ps.filter fun s => !isIdle s := by
  have htext : ∀ s, Component.text (step s) = s := by
    intro s
    unfold step
    split
    · next hup => exact hup.symm
    · rfl
  rw [routeOf, List.map_map]
  exact (List.map_congr_left fun s _ => htext s).trans (List.map_id _)

/-- The names that are left are among the pieces, in their order. -/
theorem foldl_descend_sublist (cs : List Component) (l : Location) :
    (cs.foldl descend l).reverse.Sublist (l.reverse ++ cs.map Component.text) := by
  induction cs generalizing l with
  | nil => simp
  | cons c cs ih =>
    have hstep : (descend l c).reverse.Sublist (l.reverse ++ [Component.text c]) := by
      cases c with
      | root => exact List.nil_sublist _
      | current => exact List.sublist_append_left _ _
      | up => exact ((List.tail_sublist l).reverse).trans (List.sublist_append_left _ _)
      | name s =>
        rw [descend, List.reverse_cons]
        exact List.Sublist.refl _
    rw [List.foldl_cons, List.map_cons]
    refine (ih (descend l c)).trans ?_
    rw [← List.singleton_append, ← List.append_assoc]
    exact hstep.append (List.Sublist.refl _)

/-- Taking the detours out of a path from the root leaves some of its characters out. -/
theorem normalize_sublist (h : p.isAbsolute = true) :
    p.normalize.text.toList.Sublist p.text.toList := by
  obtain ⟨s, rfl⟩ := isAbsolute_iff.mp h
  have hpieces := pieces_separator s
  rw [normalize_of_absolute h]
  have htext : ∀ l : Location, (Location.path l).text.toList = '/' :: (joined l.reverse).toList := by
    intro l
    simp [Location.path, joined]
  have hnames : (place ⟨"/" ++ s⟩).reverse.Sublist (Path.mk s).pieces := by
    have hfold := foldl_descend_sublist (route ⟨"/" ++ s⟩) []
    rw [← place_eq, route, hpieces, routeOf_idle (by decide), routeOf_texts_eq] at hfold
    exact hfold.trans List.filter_sublist
  have hwhole : (Path.mk ("/" ++ s)).text.toList = '/' :: (joined (Path.mk s).pieces).toList := by
    rw [joined_pieces]
    simp
  rw [htext, hwhole]
  exact (joined_sublist hnames).cons_cons _

end Path

namespace FileTree

open Regression.Path (routeOf descend IsPlain)

variable {t : FileTree} {cwd l l' : Location} {p : Path} {s : String}

/-- A tree without symbolic links. -/
def Unlinked (t : FileTree) : Prop := ∀ l target, t.node? l ≠ some (.link target)

/-- A place that its own names lead to from the root. -/
def Walked (t : FileTree) (l : Location) : Prop := t.reach true [] l.reverse = .arrived l

/-- One step that arrives, a link not being followed on the way. -/
theorem reach_one (hs : '/' ∉ s.toList) (h : t.reach true l [s] = .arrived l') :
    l' = (routeOf [s]).foldl descend l := by
  by_cases hidle : Path.isIdle s = true
  · rw [Path.routeOf_idle hidle]
    have hs : s = "" ∨ s = "." := by simpa [Path.isIdle] using hidle
    rcases hs with rfl | rfl
    · simp only [reach] at h
      split at h <;> cases h
      rfl
    · simp only [reach, if_neg (show ¬"." = "" by decide), ↓reduceIte] at h
      repeat' split at h
      all_goals first | cases h; rfl | cases h
  · have hbusy : s ≠ "" ∧ s ≠ "." := by simpa [Path.isIdle] using hidle
    have hroute : routeOf [s] = [Path.step s] := by simp [routeOf, hidle]
    rw [hroute]
    simp only [reach, if_neg hbusy.1, if_neg hbusy.2] at h
    by_cases hup : s = ".."
    · subst hup
      simp only [if_pos] at h
      repeat' split at h
      all_goals first | cases h; rfl | cases h
    · rw [Path.step, if_neg hup]
      simp only [if_neg hup] at h
      repeat' split at h
      all_goals first | cases h; rfl | cases h

theorem Walked.tail (h : t.Walked l) (hl : ∀ s ∈ l, IsName s) : t.Walked l.tail := by
  cases l with
  | nil => exact h
  | cons s l =>
    have hs : IsName s := hl s List.mem_cons_self
    have hstep : ∀ c ∈ [Component.name s], Path.IsStep c := List.forall_mem_singleton.mpr hs
    have hroute : routeOf [s] = [.name s] := Path.routeOf_texts hstep
    rw [Walked, List.reverse_cons, reach_append t true (List.cons_ne_nil s [])] at h
    cases hr : t.reach true [] l.reverse with
    | arrived l' =>
      rw [hr] at h
      have hl' := reach_one hs.whole h
      rw [hroute] at hl'
      obtain ⟨-, rfl⟩ := List.cons.inj hl'
      exact hr
    | absent l' | refused f | link l' target rest =>
      rw [hr] at h
      cases h

theorem Walked.child (h : t.Walked l) (hs : t.reach true l [s] = .arrived (s :: l)) :
    t.Walked (s :: l) := by
  have hl : t.reach true [] l.reverse = .arrived l := h
  rw [Walked, List.reverse_cons, reach_append t true (List.cons_ne_nil s []), hl]
  exact hs

/-- A step that arrives at a place whose own names lead there. -/
theorem Walked.step (hw : t.Walked l) (hl : ∀ s ∈ l, IsName s) (hs : '/' ∉ s.toList)
    (h : t.reach true l [s] = .arrived l') : t.Walked l' := by
  have hl' := reach_one hs h
  by_cases hidle : Path.isIdle s = true
  · rw [Path.routeOf_idle hidle] at hl'
    exact hl' ▸ hw
  · have hroute : routeOf [s] = [Path.step s] := by simp [routeOf, hidle]
    rw [hroute, Path.step] at hl'
    split at hl'
    · exact hl' ▸ hw.tail hl
    · subst hl'
      exact hw.child h

/-- A route that arrives leads where its steps say, and the names of that place lead there too. -/
theorem reach_steps {xs : List String} (hxs : ∀ s ∈ xs, '/' ∉ s.toList) (hw : t.Walked l)
    (hl : ∀ s ∈ l, IsName s) (h : t.reach true l xs = .arrived l') :
    l' = (routeOf xs).foldl descend l ∧ t.Walked l' := by
  induction xs generalizing l with
  | nil =>
    cases h
    exact ⟨rfl, hw⟩
  | cons s rest ih =>
    obtain ⟨hs, hrest⟩ := List.forall_mem_cons.mp hxs
    have hsplit : routeOf (s :: rest) = routeOf [s] ++ routeOf rest := Path.routeOf_append [s] rest
    by_cases hnil : rest = []
    · subst hnil
      exact ⟨reach_one hs h, hw.step hl hs h⟩
    · rw [← List.singleton_append, reach_append t true hnil] at h
      cases hr : t.reach true l [s] with
      | arrived l₁ =>
        rw [hr] at h
        have hl₁ := reach_one hs hr
        have hnames : ∀ s' ∈ l₁, IsName s' := by
          rw [hl₁]
          refine Path.isName_foldl_descend hl fun c hc => ?_
          exact Path.isStep_of_mem_routeOf (by simpa using hs) hc
        obtain ⟨hl', hw'⟩ := ih hrest (hw.step hl hs hr) hnames h
        rw [hsplit, List.foldl_append, ← hl₁]
        exact ⟨hl', hw'⟩
      | absent l₁ | refused f | link l₁ target rest' =>
        rw [hr] at h
        cases h

/-- Without links a route ends where it is reached. -/
theorem reach_not_link (hu : t.Unlinked) (follow : Bool) (xs : List String) {target : String}
    {rest : List String} : t.reach follow l xs ≠ .link l' target rest := by
  induction xs generalizing l with
  | nil => nofun
  | cons s xs ih =>
    intro h
    rw [reach] at h
    split at h
    · split at h
      · exact ih h
      · split at h
        · cases h
        · split at h
          · exact ih h
          · split at h
            · exact ih h
            · split at h
              · cases h
              · split at h
                · split at h <;> cases h
                · next hlink => exact hu _ _ hlink
                · exact ih h
    · cases h
    · cases h

/-- A path asks for at least one step. -/
theorem steps_ne_nil (h : p.text ≠ "") : steps p ≠ [] := by
  intro hnil
  rw [steps_eq] at hnil
  split at hnil
  · simp at hnil
  · next hopen =>
    have hidle : ∀ s ∈ p.pieces, s = "" := by simpa [Path.names] using hnil
    rcases List.eq_nil_or_concat' p.pieces with hp | ⟨front, last, hp⟩
    · exact Path.pieces_ne_nil p hp
    · have hlast : last = "" := hidle last (by simp [hp])
      have htext := p.joined_pieces
      rw [hp, hlast] at htext
      by_cases hfront : front = []
      · subst hfront
        exact h (htext.symm.trans String.intercalate_singleton)
      · rw [Path.joined_concat hfront, String.append_empty] at htext
        exact hopen (by simp [Path.endsInSeparator, ← htext])

theorem routeOf_steps (p : Path) : routeOf (steps p) = p.route := by
  have hnames : routeOf p.names = p.route := by
    rw [Path.route, routeOf, routeOf, Path.names, List.filter_filter]
    congr 2
    funext s
    by_cases hs : s = "" <;> simp [Path.isIdle, hs]
  rw [steps_eq]
  split
  · rw [Path.routeOf_append, hnames]
    simp [routeOf, Path.isIdle]
  · exact hnames

theorem whole_of_mem_steps (h : s ∈ steps p) : '/' ∉ s.toList := by
  have hnames : ∀ s ∈ p.names, '/' ∉ s.toList := fun s hs =>
    Path.whole_of_mem_pieces (List.mem_filter.mp hs).1
  rw [steps_eq] at h
  split at h
  · rcases List.mem_append.mp h with h | h
    · exact hnames s h
    · rw [List.mem_singleton.mp h]
      decide
  · exact hnames s h

/-- The names of a place are the steps of its path, and a last step stays at the root. -/
theorem steps_path (hl : ∀ s ∈ l, IsName s) :
    steps (Location.path l) = if l = [] then [""] else l.reverse := by
  have hwhole : ∀ s ∈ l.reverse, '/' ∉ s.toList := fun s hs => (hl s (List.mem_reverse.mp hs)).whole
  have hpath : Location.path l = ⟨"/" ++ Path.joined l.reverse⟩ := rfl
  split
  · next hnil =>
    subst hnil
    rfl
  · next hne =>
    have hrev : l.reverse ≠ [] := by simpa using hne
    have hnames : (Location.path l).names = l.reverse := by
      rw [Path.names, hpath, Path.pieces_separator, Path.pieces_joined hwhole hrev]
      have hfilled : l.reverse.filter (· != "") = l.reverse := by
        rw [List.filter_eq_self]
        intro s hs
        simpa using (hl s (List.mem_reverse.mp hs)).filled
      simpa using hfilled
    have hopen : (Location.path l).endsInSeparator = false := by
      rcases List.eq_nil_or_concat' l.reverse with hnil | ⟨front, last, hlast⟩
      · exact absurd hnil hrev
      · obtain ⟨text, htext⟩ := Path.joined_ending front last
        have hname : IsName last := hl last (List.mem_reverse.mp (by simp [hlast]))
        rw [hpath, hlast, htext, ← String.append_assoc]
        exact Path.endsInSeparator_plain (Path.isPlain_of_isName hname) _
    rw [steps_eq, hopen, hnames]
    rfl

theorem checkPath_normalize (h : p.isAbsolute = true) (hc : checkPath p = .ok ()) :
    checkPath p.normalize = .ok () := by
  have hsub := Path.normalize_sublist h
  have hsize := Path.size_sublist hsub
  rw [String.ofList_toList, String.ofList_toList] at hsize
  have hfilled : p.normalize.text.isEmpty = false := by
    rw [Path.normalize_of_absolute h]
    simp [Location.path]
  unfold checkPath at hc ⊢
  split at hc
  · cases hc
  · split at hc
    · cases hc
    · next hzero =>
      split at hc
      · cases hc
      · next hlong =>
        have hzero' : ¬p.normalize.text.toList.contains '\x00' = true := by
          rw [List.contains_iff_mem]
          intro hmem
          exact hzero (List.contains_iff_mem.mpr (hsub.subset hmem))
        rw [hfilled, if_neg Bool.false_ne_true, if_neg hzero', if_neg (by omega)]

/-- Without links a path from the root that leads somewhere leads where its text says. -/
theorem reach_of_find {n : Node} (hu : t.Unlinked) (hp : p.isAbsolute = true)
    (h : t.find cwd p = .ok (l, n)) : t.reach true [] (steps p) = .arrived l := by
  obtain ⟨-, ⟨there, ht⟩, hn⟩ := findAt_ok h
  rw [Path.origin, if_pos hp, travel_eq] at ht
  cases hr : t.reach true [] (steps p) with
  | arrived l' =>
    rw [hr] at ht
    cases ht
    rfl
  | absent l' =>
    rw [hr] at ht
    cases ht
    rw [reach_absent hr] at hn
    cases hn
  | refused f =>
    rw [hr] at ht
    cases ht
  | link l' target rest => exact absurd hr (reach_not_link hu true (steps p))

/-- A detour that can be taken leads nowhere else. -/
theorem find_normalize {n : Node} (hu : t.Unlinked) (hp : p.isAbsolute = true)
    (h : t.find cwd p = .ok (l, n)) : l = p.place ∧ t.find cwd p.normalize = .ok (l, n) := by
  obtain ⟨hc, -, hn⟩ := findAt_ok h
  have hreach := reach_of_find hu hp h
  have hroot : t.Walked [] := rfl
  obtain ⟨hl, hwalked⟩ := reach_steps (fun s hs => whole_of_mem_steps hs) hroot
    (fun s hs => absurd hs List.not_mem_nil) hreach
  rw [routeOf_steps, ← Path.place_eq] at hl
  refine ⟨hl, ?_⟩
  have hnames : ∀ s ∈ l, IsName s := by
    rw [hl]
    exact fun s hs => Path.isName_of_mem_place hs
  have hagain : t.reach true [] (steps p.normalize) = .arrived l := by
    rw [Path.normalize_of_absolute hp, ← hl, steps_path hnames]
    split
    · next hnil =>
      subst hnil
      -- Whatever the first step was, it was made from the root.
      cases hsteps : steps p with
      | nil => exact absurd hsteps (steps_ne_nil (text_ne_of_checkPath hc))
      | cons s rest =>
        rw [hsteps, reach] at hreach
        split at hreach
        · next dm hdir => simp [reach, hdir]
        · cases hreach
        · cases hreach
    · exact hwalked
  have horigin : p.normalize.origin cwd = [] := by
    rw [Path.origin, Path.normalize_of_absolute hp]
    simp [Location.path, Path.isAbsolute]
  simp only [find, findAt, locate_eq, checkPath_normalize hp hc, horigin, travel_eq, hagain, bind,
    Except.bind, hn]
  rfl

end FileTree

end Regression
