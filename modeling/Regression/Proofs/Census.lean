import Mathlib.Data.List.Nodup
import Regression.Proofs.Books
import Regression.Proofs.Visits

namespace Regression

namespace Path

variable {p : Path} {names names' : List String}

/-- The path that goes on from another by names. -/
def along (p : Path) (names : List String) : Path := names.foldl (· / ·) p

@[simp] theorem along_nil (p : Path) : p.along [] = p := rfl

@[simp] theorem along_cons (p : Path) (s : String) (names : List String) :
    p.along (s :: names) = (p / s).along names := rfl

theorem join_filled {s : String} (hs : IsName s) : (p / s).text ≠ "" := by
  intro he
  have hsize := p.size_join hs.whole hs.filled
  rw [he] at hsize
  exact Nat.not_lt_zero _ hsize

theorem along_names (hp : p.text ≠ "") (h : ∀ s ∈ names, IsName s) :
    (p.along names).names = p.names ++ names := by
  induction names generalizing p with
  | nil => simp
  | cons s names ih =>
    have hs := h s List.mem_cons_self
    rw [along_cons, ih (join_filled hs) fun t ht => h t (List.mem_cons_of_mem s ht),
      names_join hp hs.whole hs.filled, List.append_assoc, List.singleton_append]

theorem along_inj (hp : p.text ≠ "") (h : ∀ s ∈ names, IsName s) (h' : ∀ s ∈ names', IsName s)
    (he : p.along names = p.along names') : names = names' := by
  have hnames := congrArg Path.names he
  rwa [along_names hp h, along_names hp h', List.append_cancel_left_eq] at hnames

end Path

namespace FileTree

variable {t : FileTree} {l : Location} {names : List String}

/-- Names that lead from a directory down to one, links left out. -/
inductive Leads (t : FileTree) : Location → List String → Prop where
  | here (l : Location) : t.Leads l []
  | down {l : Location} {s : String} {names : List String} (hs : s ∈ t.subdirectories l)
    (rest : t.Leads (s :: l) names) : t.Leads l (s :: names)

theorem name_of_subdirectory (ht : t.WellFormed) {s : String} (hs : s ∈ t.subdirectories l) :
    IsName s := by
  obtain ⟨dm, hmem⟩ := mem_subdirectories.mp hs
  exact ht.named _ hmem s List.mem_cons_self

theorem Leads.named (ht : t.WellFormed) (h : t.Leads l names) : ∀ s ∈ names, IsName s := by
  induction h with
  | here l => exact fun s hs => absurd hs List.not_mem_nil
  | down hs _ ih => exact List.forall_mem_cons.mpr ⟨name_of_subdirectory ht hs, ih⟩

theorem Leads.above {names' : List String} (h : t.Leads l (names ++ names')) : t.Leads l names := by
  induction names generalizing l with
  | nil => exact .here l
  | cons s names ih =>
    cases h with
    | down hs rest => exact .down hs (ih rest)

/-- What lies below a directory has another path. -/
theorem WellFormed.along_ne (ht : t.WellFormed) {d : Path} {s : String} (hd : d.text ≠ "")
    (hs : s ∈ t.subdirectories l) (h : t.Leads (s :: l) names) : d.along (s :: names) ≠ d := by
  intro he
  have hnil : d.along (s :: names) = d.along [] := he
  cases Path.along_inj hd ((Leads.down hs h).named ht) (by simp) hnil

end FileTree

namespace Terrain

/-- The start of a path takes at most one piece, which is idle. -/
theorem body_or_idle {d : Path} {s : String} (hs : s ∈ d.pieces) : s ∈ d.body ∨ Path.isIdle s := by
  unfold Path.body
  cases hstart : d.start with
  | plain => exact .inl hs
  | root =>
    unfold Path.start at hstart
    split at hstart
    · next hp =>
      rw [hp] at hs ⊢
      rcases List.mem_cons.mp hs with rfl | hs
      · exact .inr rfl
      · exact .inl hs
    · cases hstart
    · cases hstart
  | current =>
    unfold Path.start at hstart
    split at hstart
    · cases hstart
    · next hp =>
      rw [hp] at hs ⊢
      rcases List.mem_cons.mp hs with rfl | hs
      · exact .inr rfl
      · exact .inl hs
    · cases hstart

theorem mem_pieces_of_body {d : Path} {s : String} (hs : s ∈ d.body) : s ∈ d.pieces := by
  unfold Path.body at hs
  split at hs
  · exact hs
  · exact List.mem_of_mem_tail hs

/-- A directory lies in a bundle where a name on its path says so. -/
theorem inBundle_iff_names {d : Path} :
    InBundle d ↔ ∃ s ∈ d.names, ".dSYM".toList <:+ s.toList := by
  have hshort : ∀ s ∈ ["", ".", "..", "/"], ¬".dSYM".toList <:+ s.toList := by decide
  constructor
  · rintro ⟨c, hc, hends⟩
    rw [Path.components, List.mem_append] at hc
    rcases hc with hc | hc
    · cases hstart : d.start <;> rw [hstart] at hc <;>
        simp only [Path.Start.components, List.mem_singleton, List.not_mem_nil] at hc <;>
        subst hc <;> exact absurd hends (by decide)
    · obtain ⟨s, hs, rfl⟩ := List.mem_map.mp hc
      have hends : ".dSYM".toList <:+ s.toList := by
        unfold Path.step at hends
        split at hends
        · exact absurd hends (hshort ".." (by decide))
        · exact hends
      refine ⟨s, List.mem_filter.mpr ⟨mem_pieces_of_body (List.mem_filter.mp hs).1, ?_⟩, hends⟩
      rw [bne_iff_ne]
      rintro rfl
      exact hshort "" (by decide) hends
  · rintro ⟨s, hs, hends⟩
    have hnot : ∀ s' ∈ ["", ".", "..", "/"], s ≠ s' := fun s' hs' he => hshort s' hs' (he ▸ hends)
    have hidle : Path.isIdle s = false := by
      simp [Path.isIdle, hnot "" (by decide), hnot "." (by decide)]
    have hbody := (body_or_idle (List.mem_filter.mp hs).1).resolve_right (by simp [hidle])
    refine ⟨.name s, List.mem_append_right _ (List.mem_map.mpr ⟨s, ?_, ?_⟩), hends⟩
    · exact List.mem_filter.mpr ⟨hbody, by simp [hidle]⟩
    · exact if_neg (hnot ".." (by decide))

theorem InBundle.along {d : Path} {names : List String} (h : InBundle d) (hd : d.text ≠ "")
    (hnames : ∀ s ∈ names, IsName s) : InBundle (d.along names) := by
  rw [inBundle_iff_names] at h ⊢
  obtain ⟨s, hs, hends⟩ := h
  exact ⟨s, by rw [Path.along_names hd hnames]; exact List.mem_append_left _ hs, hends⟩

end Terrain

namespace Walk

/-- The walk turned back above the directory that the names lead to. -/
def CutOff (o : WalkOptions) (es : List Entry) (d : Path) (names : List String) : Prop :=
  (o.recurse = false ∧ names ≠ []) ∨ ∃ above below, names = above ++ below ∧ below ≠ [] ∧
    (d.along above ∈ withLot .refused es ∨ d.along above ∈ withLot .pruned es)

/-- What becomes of a directory of a tree that is walked. -/
inductive Standing where
  | visited
  | inaccessible
  | cutOff
  | bundled
  deriving DecidableEq

/-- Whether the directory to which the names lead from `d` has that standing. -/
def Standing.Holds (o : WalkOptions) (es : List Entry) (d : Path) (names : List String) :
    Standing → Prop
  | visited => d.along names ∈ Walk.visited es
  | inaccessible => d.along names ∈ withLot .refused es
  | cutOff => CutOff o es d names
  | bundled => Terrain.InBundle (d.along names)

/-- The same, where a bundle counts only for what has no other standing. -/
def Standing.Counts (o : WalkOptions) (es : List Entry) (d : Path) (names : List String) :
    Standing → Prop
  | bundled => Standing.bundled.Holds o es d names ∧
      ∀ s : Standing, s ≠ .bundled → ¬s.Holds o es d names
  | s => s.Holds o es d names

/-- What a walk from `root`, which lies at `l`, makes of the directories of a tree. -/
structure Census (o : WalkOptions) (t : FileTree) (l : Location) (root : Path) (es : List Entry) :
    Prop where
  once : (es.map Entry.directory).Nodup
  real : ∀ e ∈ es, ∃ names, t.Leads l names ∧ e.directory = root.along names
  free : ∀ d ∈ visited es, ¬Terrain.InBundle d
  settled : ∀ names, t.Leads l names → ∃! s : Standing, s.Counts o es root names

end Walk

namespace Walk

variable {o : WalkOptions} {es : List Entry} {lot : Lot} {p : Path}

theorem mem_withLot : p ∈ withLot lot es ↔ ∃ e ∈ es, e.lot = lot ∧ e.directory = p := by
  simp [withLot, and_assoc]

theorem mem_visited : p ∈ visited es ↔ ∃ e ∈ es, e.lot ≠ .refused ∧ e.directory = p := by
  simp [visited, and_assoc]

namespace Standing

variable {d : Path} {names : List String} {s : Standing} {e : Entry}

theorem Counts.holds (h : s.Counts o es d names) : s.Holds o es d names := by
  cases s with
  | bundled => exact h.1
  | _ => exact h

/-- Standings that exclude each other, bundles aside, leave one that counts. -/
theorem unique_of_counts (s₀ : Standing) (h₀ : s₀.Counts o es d names)
    (hother : ∀ s : Standing, s ≠ .bundled → s.Holds o es d names → s = s₀) :
    ∃! s : Standing, s.Counts o es d names := by
  refine ⟨s₀, h₀, fun s hs => ?_⟩
  by_cases hb : s = .bundled
  · subst hb
    by_contra hne
    exact hs.2 s₀ (Ne.symm hne) h₀.holds
  · exact hother s hb hs.holds

/-- Nothing lies above the directory that a walk starts from. -/
theorem not_cutOff_nil : ¬CutOff o es d [] := by
  rintro (⟨-, hne⟩ | ⟨above, below, hnames, hbelow, -⟩)
  · exact hne rfl
  · exact hbelow (List.append_eq_nil_iff.mp hnames.symm).2

/-- The directory that a walk starts from, with its one entry. -/
theorem unique_here (he : e ∈ es) (hdir : e.directory = d)
    (honly : ∀ e' ∈ es, e'.directory = d → e' = e) : ∃! s : Standing, s.Counts o es d [] := by
  by_cases hlot : e.lot = .refused
  · refine unique_of_counts .inaccessible (mem_withLot.mpr ⟨e, he, hlot, hdir⟩) fun s hb hs => ?_
    cases s with
    | visited =>
      obtain ⟨e', he', hlot', hdir'⟩ := mem_visited.mp hs
      rw [honly e' he' hdir'] at hlot'
      exact absurd hlot hlot'
    | inaccessible => rfl
    | cutOff => exact absurd hs not_cutOff_nil
    | bundled => exact absurd rfl hb
  · refine unique_of_counts .visited (mem_visited.mpr ⟨e, he, hlot, hdir⟩) fun s hb hs => ?_
    cases s with
    | visited => rfl
    | inaccessible =>
      obtain ⟨e', he', hlot', hdir'⟩ := mem_withLot.mp hs
      rw [honly e' he' hdir'] at hlot'
      exact absurd hlot' hlot
    | cutOff => exact absurd hs not_cutOff_nil
    | bundled => exact absurd rfl hb

/-- A directory below one where the walk turned back. -/
theorem unique_below (hdir : e.directory = d) (hnames : names ≠ []) (hne : d.along names ≠ d)
    (hshut : o.recurse = false ∨ e.lot = .refused ∨ e.lot = .pruned) :
    ∃! s : Standing, s.Counts o [e] d names := by
  have hnot : ∀ e' ∈ [e], e'.directory ≠ d.along names := by
    intro e' he' hdir'
    rw [List.mem_singleton.mp he', hdir] at hdir'
    exact hne hdir'.symm
  refine unique_of_counts .cutOff ?_ fun s hb hs => ?_
  · rcases hshut with hr | hlot | hlot
    · exact .inl ⟨hr, hnames⟩
    · exact .inr ⟨[], names, rfl, hnames, .inl (mem_withLot.mpr ⟨e, by simp, hlot, hdir⟩)⟩
    · exact .inr ⟨[], names, rfl, hnames, .inr (mem_withLot.mpr ⟨e, by simp, hlot, hdir⟩)⟩
  · cases s with
    | visited =>
      obtain ⟨e', he', -, hdir'⟩ := mem_visited.mp hs
      exact absurd hdir' (hnot e' he')
    | inaccessible =>
      obtain ⟨e', he', -, hdir'⟩ := mem_withLot.mp hs
      exact absurd hdir' (hnot e' he')
    | cutOff => rfl
    | bundled => exact absurd rfl hb

/-- Where nothing is visited, what is not cut off lies in a bundle. -/
theorem unique_nothing (hb : Terrain.InBundle (d.along names)) :
    ∃! s : Standing, s.Counts o [] d names := by
  have hnone : ∀ s : Standing, s ≠ .bundled → s.Holds o [] d names → s = .cutOff := by
    intro s hne hs
    cases s with
    | visited => cases hs
    | inaccessible => cases hs
    | cutOff => rfl
    | bundled => exact absurd rfl hne
  by_cases hcut : CutOff o [] d names
  · exact unique_of_counts .cutOff hcut hnone
  · refine unique_of_counts .bundled ⟨hb, fun s hne hs => ?_⟩ fun s hne hs => ?_
    · obtain rfl := hnone s hne hs
      exact hcut hs
    · obtain rfl := hnone s hne hs
      exact absurd hs hcut

theorem counts_congr {es' : List Entry} {d' : Path} {names' : List String}
    (h : ∀ s : Standing, s.Holds o es d names ↔ s.Holds o es' d' names') (s : Standing) :
    s.Counts o es d names ↔ s.Counts o es' d' names' := by
  cases s with
  | bundled =>
    exact and_congr (h .bundled) (forall_congr' fun s => imp_congr_right fun _ => not_congr (h s))
  | visited => exact h .visited
  | inaccessible => exact h .inaccessible
  | cutOff => exact h .cutOff

end Standing

/-- Entries of directories below one, by the names of those directly in it. -/
structure Branches (t : FileTree) (l : Location) (d : Path) (rest : String → List Entry) : Prop where
  files : t.WellFormed
  filled : d.text ≠ ""
  real : ∀ s ∈ t.subdirectories l, ∀ e ∈ rest s, ∃ names, t.Leads (s :: l) names ∧
    e.directory = (d / s).along names

namespace Branches

variable {t : FileTree} {l : Location} {d : Path} {rest : String → List Entry} {first e : Entry}
  {s : String} {names : List String}

theorem directory_ne (h : Branches t l d rest) (hs : s ∈ t.subdirectories l) (he : e ∈ rest s) :
    e.directory ≠ d := by
  intro hd
  obtain ⟨names, hleads, hdir⟩ := h.real s hs e he
  exact h.files.along_ne h.filled hs hleads (hdir.symm.trans hd)

/-- Of the directory itself there is the one entry. -/
theorem mem_here (h : Branches t l d rest) (he : e.directory = d) :
    e ∈ first :: (t.subdirectories l).flatMap rest ↔ e = first := by
  rw [List.mem_cons, or_iff_left]
  intro hmem
  obtain ⟨s, hs, hmem⟩ := List.mem_flatMap.mp hmem
  exact h.directory_ne hs hmem he

/-- The entries below a directory are those of its own branch. -/
theorem mem_below (h : Branches t l d rest) (hfirst : first.directory = d)
    (hs : s ∈ t.subdirectories l) (hleads : t.Leads (s :: l) names)
    (he : e.directory = (d / s).along names) :
    e ∈ first :: (t.subdirectories l).flatMap rest ↔ e ∈ rest s := by
  constructor
  · intro hmem
    rcases List.mem_cons.mp hmem with rfl | hmem
    · exact absurd (he.symm.trans hfirst) (h.files.along_ne h.filled hs hleads)
    · obtain ⟨s', hs', hmem⟩ := List.mem_flatMap.mp hmem
      obtain ⟨names', hleads', hdir⟩ := h.real s' hs' e hmem
      have heq : d.along (s :: names) = d.along (s' :: names') := he.symm.trans hdir
      cases Path.along_inj h.filled ((FileTree.Leads.down hs hleads).named h.files)
        ((FileTree.Leads.down hs' hleads').named h.files) heq
      exact hmem
  · exact fun hmem => List.mem_cons_of_mem _ (List.mem_flatMap.mpr ⟨s, hs, hmem⟩)

/-- What stands below a directory that is worked on and not pruned stands there as its own branch
has it. -/
theorem holds_iff (h : Branches t l d rest) (first : Entry) (hr : o.recurse = true)
    (hfirst : first.directory = d) (hopen : first.lot ≠ .refused ∧ first.lot ≠ .pruned)
    (hs : s ∈ t.subdirectories l) (hleads : t.Leads (s :: l) names) (standing : Standing) :
    standing.Holds o (first :: (t.subdirectories l).flatMap rest) d (s :: names) ↔
      standing.Holds o (rest s) (d / s) names := by
  have hlot : ∀ {names : List String}, t.Leads (s :: l) names → ∀ lot,
      (d / s).along names ∈ withLot lot (first :: (t.subdirectories l).flatMap rest) ↔
        (d / s).along names ∈ withLot lot (rest s) := by
    intro names hleads lot
    rw [mem_withLot, mem_withLot]
    exact exists_congr fun e => and_congr_left fun he => h.mem_below hfirst hs hleads he.2
  cases standing with
  | visited =>
    simp only [Standing.Holds, Path.along_cons, mem_visited]
    exact exists_congr fun e => and_congr_left fun he => h.mem_below hfirst hs hleads he.2
  | inaccessible => exact hlot hleads _
  | bundled => exact Iff.rfl
  | cutOff =>
    simp only [Standing.Holds, CutOff, hr, Bool.true_eq_false, false_and, false_or]
    constructor
    · rintro ⟨above, below, hnames, hbelow, hshut⟩
      cases above with
      | nil =>
        -- The directory itself is open.
        simp only [Path.along_nil, mem_withLot] at hshut
        rcases hshut with ⟨e, he, hlot, hdir⟩ | ⟨e, he, hlot, hdir⟩
        · exact absurd hlot ((h.mem_here hdir).mp he ▸ hopen.1)
        · exact absurd hlot ((h.mem_here hdir).mp he ▸ hopen.2)
      | cons s' above =>
        rw [List.cons_append, List.cons.injEq] at hnames
        obtain ⟨rfl, rfl⟩ := hnames
        rw [Path.along_cons, hlot hleads.above, hlot hleads.above] at hshut
        exact ⟨above, below, rfl, hbelow, hshut⟩
    · rintro ⟨above, below, rfl, hbelow, hshut⟩
      refine ⟨s :: above, below, rfl, hbelow, ?_⟩
      rwa [Path.along_cons, hlot hleads.above, hlot hleads.above]

end Branches

end Walk

namespace Terrain.Visits

open Walk

variable {w : Terrain} {l : Location} {d : Path} {es : List Entry}

/-- Each entry is one of a directory. -/
theorem real (h : w.Visits l d es) :
    ∀ e ∈ es, ∃ names, w.files.Leads l names ∧ e.directory = d.along names := by
  induction h with
  | refused _ =>
    intro e he
    rw [List.mem_singleton.mp he]
    exact ⟨[], .here _, rfl⟩
  | bundled _ _ => exact fun e he => absurd he List.not_mem_nil
  | stayed _ _ _ _ =>
    intro e he
    rw [List.mem_singleton.mp he]
    exact ⟨[], .here _, rfl⟩
  | descended _ _ _ _ _ _ ih =>
    intro e he
    rcases List.mem_cons.mp he with rfl | he
    · exact ⟨[], .here _, rfl⟩
    · obtain ⟨s, hs, he⟩ := List.mem_flatMap.mp he
      obtain ⟨names, hleads, hd⟩ := ih s hs e he
      exact ⟨s :: names, .down hs hleads, hd⟩

theorem eq_refused (h : w.Visits l d es) (ha : ¬w.Accessible d) : es = [.refused d] := by
  cases h with
  | refused _ => rfl
  | bundled ha' _ => exact absurd ha' ha
  | stayed ha' _ _ _ => exact absurd ha' ha
  | descended ha' _ _ _ _ _ => exact absurd ha' ha

theorem free (h : w.Visits l d es) : ∀ p ∈ visited es, ¬InBundle p := by
  suffices hworked : ∀ e ∈ es, e.lot ≠ .refused → ¬InBundle e.directory by
    intro p hp
    obtain ⟨e, he, hlot, rfl⟩ := mem_visited.mp hp
    exact hworked e he hlot
  induction h with
  | refused _ => simp [Entry.lot]
  | bundled _ _ => simp
  | stayed _ hb _ _ =>
    intro e he _
    rw [List.mem_singleton.mp he]
    exact hb
  | descended _ hb _ _ _ _ ih =>
    intro e he hlot
    rcases List.mem_cons.mp he with rfl | he
    · exact hb
    · obtain ⟨s, hs, he⟩ := List.mem_flatMap.mp he
      exact ih s hs e he hlot

theorem once (h : w.Visits l d es) (hw : w.files.WellFormed) (hd : d.text ≠ "") :
    (es.map Entry.directory).Nodup := by
  induction h with
  | refused _ => simp
  | bundled _ _ => simp
  | stayed _ _ _ _ => simp
  | @descended l d v handed rest _ _ _ _ _ below ih =>
    have hbranches : Branches w.files l d rest := ⟨hw, hd, fun s hs => (below s hs).real⟩
    rw [List.map_cons, List.nodup_cons, List.map_flatMap, List.nodup_flatMap]
    refine ⟨fun hmem => ?_, fun s hs => ?_, ?_⟩
    · obtain ⟨s, hs, hmem⟩ := List.mem_flatMap.mp hmem
      obtain ⟨e, he, hdir⟩ := List.mem_map.mp hmem
      exact hbranches.directory_ne hs he hdir
    · exact ih s hs (Path.join_filled (FileTree.name_of_subdirectory hw hs))
    · refine (FileTree.subdirectories_sorted hw l).imp_of_mem fun {s s'} hs hs' hlt => ?_
      refine List.disjoint_left.mpr fun {p} hp hp' => ?_
      obtain ⟨e, he, rfl⟩ := List.mem_map.mp hp
      obtain ⟨e', he', hdir'⟩ := List.mem_map.mp hp'
      obtain ⟨names, hleads, hdir⟩ := hbranches.real s hs e he
      obtain ⟨names', hleads', hdir''⟩ := hbranches.real s' hs' e' he'
      have heq : d.along (s :: names) = d.along (s' :: names') :=
        hdir.symm.trans (hdir'.symm.trans hdir'')
      cases Path.along_inj hd ((FileTree.Leads.down hs hleads).named hw)
        ((FileTree.Leads.down hs' hleads').named hw) heq
      exact String.ne_of_lt hlt rfl

theorem settled (h : w.Visits l d es) (hw : w.files.WellFormed) (hd : d.text ≠ "")
    {names : List String} (hleads : w.files.Leads l names) :
    ∃! s : Standing, s.Counts w.options es d names := by
  induction h generalizing names with
  | @refused l d ha =>
    cases hleads with
    | here l => exact Standing.unique_here List.mem_cons_self rfl (by simp)
    | down hs rest => exact Standing.unique_below rfl (by simp) (hw.along_ne hd hs rest) (.inr (.inl rfl))
  | bundled ha hb => exact Standing.unique_nothing (hb.along hd (hleads.named hw))
  | @stayed l d v handed ha hb hh hstop =>
    cases hleads with
    | here l => exact Standing.unique_here List.mem_cons_self rfl (by simp)
    | down hs rest =>
      refine Standing.unique_below rfl (by simp) (hw.along_ne hd hs rest) (hstop.imp_right fun hp => ?_)
      exact .inr (lotOf_eq_pruned.mpr hp)
  | @descended l d v handed rest ha hb hh hr hopen below ih =>
    have hbranches : Branches w.files l d rest := ⟨hw, hd, fun s hs => (below s hs).real⟩
    cases hleads with
    | here l =>
      refine Standing.unique_here List.mem_cons_self rfl fun e he hdir => ?_
      exact (hbranches.mem_here hdir).mp he
    | @down l s names hs hrest =>
      have hlot : lotOf (Entry.heeded v) handed ≠ .pruned := by
        rw [Ne, lotOf_eq_pruned, hopen]
        simp
      have hiff := hbranches.holds_iff (.worked d v handed) hr rfl ⟨lotOf_ne_refused _ _, hlot⟩ hs hrest
      have hsub := ih s hs (Path.join_filled (FileTree.name_of_subdirectory hw hs)) hrest
      simpa only [Standing.counts_congr hiff] using hsub

end Terrain.Visits

/-- Nothing that is done from `n` onwards changes the look of its tree. -/
def Unchanging (c : Context) (mode : RunMode) (handle : Handler) (n : Machine) : Prop :=
  ∀ m, Reached c mode handle n m → m.Shows n.files n.directory

/-- A walk that succeeds keeps its books, and where the tree stays as it is, they take in each of the
directories. -/
theorem walk_keepsBooks {c : Context} {o : WalkOptions} {mode : RunMode} {handle : Handler}
    {root : Path} {report : WalkReport} {n n' : Machine}
    (hrun : (walk c o mode handle root).on n = (.ok report, n')) :
    ∃ es, Deeds c mode handle (Walk.course root es) n n' ∧ Walk.Books o mode root es report ∧
      ∀ l dm, n.files.WellFormed → Unchanging c mode handle n →
        n.files.findItself n.directory root = .ok (l, .directory dm) →
        Walk.Census o n.files l root es := by
  have hI := lasts_reached c mode handle n
  have hn : Reached c mode handle n n := .refl n
  obtain ⟨es, hwalked⟩ := walk_walked hI hn hrun
  refine ⟨es, hwalked.done, hwalked.books hI hn (walk_balanced hrun), ?_⟩
  intro l dm hfiles hsame hroot
  let w : Terrain := ⟨n.files, n.directory, o, mode, fun _ => .test⟩
  have hvisits := hwalked.asked w l dm ⟨rfl, rfl, hfiles, hsame⟩ hroot
  have hfilled : root.text ≠ "" := FileTree.text_ne_of_checkPath (FileTree.findAt_ok hroot).1
  exact ⟨hvisits.once hfiles hfilled, hvisits.real, hvisits.free, fun names hleads =>
    hvisits.settled hfiles hfilled hleads⟩

theorem Unchanging.of_steady {c : Context} {mode : RunMode} {handle : Handler} {n : Machine}
    (hlog : n.log.TakesAll n.files) (hskip : ∀ d, (Skip.evaluate c d).Stays (Steady n))
    (hhandle : ∀ d, (handle d mode).Stays (Steady n)) : Unchanging c mode handle n :=
  fun _ h => (h.lasting (lasts_steady hskip hhandle) (Steady.refl hlog)).shows

/-- Where no tool is found, asking about markers leaves a machine steady. -/
theorem Skip.evaluate_steady {c : Context} {n : Machine}
    (htools : ∀ history command cwd files, n.tools history command cwd files = .error .notFound)
    (d : Path) : (Skip.evaluate c d).Stays (Steady n) := by
  have hdecides : Skip.Decides c n.files n.directory (fun _ _ => false) (Steady n)
      (fun _ => ([] : List Unit)) fun _ _ => [] := by
    refine ⟨fun _ hm => hm.shows, fun d script _ _ m hm => ?_⟩
    have hfails : m.tools m.commands (Skip.question c d script) m.directory m.files =
        .error .notFound := by
      rw [hm.tools]
      exact htools _ _ _ _
    have hsteady : Steady n ((Skip.question c d script).start.on m).2 := by
      rw [Command.start_on, hfails]
      exact ⟨hm.files, hm.directory, hm.tools, hm.log⟩
    rw [Command.attempt_capture_on, hfails]
    exact ⟨[], hsteady, rfl, rfl, rfl⟩
  intro m hm
  obtain ⟨_, hsteady, -⟩ := Skip.evaluate_gives hdecides d m hm
  exact hsteady

namespace Grove

theorem evaluate_stays (d : Path) : (Skip.evaluate context d).Stays (Steady machine) :=
  Skip.evaluate_steady (fun _ _ _ _ => rfl) d

theorem mark_stays (d : Path) : (mark d .execute).Stays (Steady machine) :=
  fun _ hm => ⟨⟨hm.files, hm.directory, hm.tools, hm.log⟩, fun _ _ => trivial⟩

theorem wellFormed : files.WellFormed := ⟨by decide, by decide⟩

theorem walk_ok : ∃ report m',
    (walk context {} .execute mark ⟨"/t"⟩).on machine = (.ok report, m') ∧
      marks m' = [⟨"/t"⟩, ⟨"/t/s"⟩] := by
  have hfoot : Footing context terrain mark (Steady machine) marks (fun _ => []) fun d => [d] :=
    Footing.of_steady ⟨rfl, rfl⟩ unwritten (fun _ => directive_gives) mark_gives
  obtain ⟨report, m', _, hrun, -, hmarks, rfl⟩ :=
    hfoot.walk wellFormed ⟨"/t"⟩ machine (Steady.refl trivial)
  have hadds : (fun l d => terrain.adds l d (fun _ => []) fun d => [d]) =
      fun l d => if terrain.Chosen l d then [d] else [] := by
    funext l d
    simp [Terrain.adds]
  have hroot : terrain.files.findItself terrain.cwd ⟨"/t"⟩ = .ok (["t"], .directory .newDirectory) :=
    rfl
  rw [hadds, Terrain.round_of_directory hroot, Terrain.tour_chosen, selected] at hmarks
  exact ⟨report, m', hrun, hmarks⟩

theorem walk_keepsBooks_grove : ∃ report m' es,
    (walk context {} .execute mark ⟨"/t"⟩).on machine = (.ok report, m') ∧
      Walk.Books {} .execute ⟨"/t"⟩ es report ∧ Walk.Census {} files ["t"] ⟨"/t"⟩ es := by
  obtain ⟨report, m', hrun, -⟩ := walk_ok
  obtain ⟨es, -, hbooks, hcensus⟩ := walk_keepsBooks hrun
  exact ⟨report, m', es, hrun, hbooks, hcensus ["t"] .newDirectory wellFormed
    (.of_steady trivial evaluate_stays mark_stays) rfl⟩

end Grove

namespace Sealed

/-- A directory for debug symbols that nobody may enter. -/
def files : FileTree :=
  { entries :=
      [([], .directory .newDirectory), (["t"], .directory .newDirectory),
        (["x.dSYM", "t"], .directory ⟨0⟩)] }

def machine : Machine := { Grove.machine with files }

/-- A walk that only cleans, so that no marker is asked. -/
def options : WalkOptions := { cleanOnly := true }

def idle : Handler := fun _ _ => pure ()

theorem wellFormed : files.WellFormed := ⟨by decide, by decide⟩

/-- Such a walk succeeds on any tree, as messages go to memory. -/
theorem walk_ok (files : FileTree) (hfiles : files.WellFormed) : ∃ report m',
    (walk Grove.context options .execute idle ⟨"/t"⟩).on { Grove.machine with files } =
      (.ok report, m') := by
  let m : Machine := { Grove.machine with files }
  have hfoot : Footing Grove.context ⟨files, [], options, .execute, fun _ => .test⟩ idle
      (Steady m) (fun _ => ([] : List Unit)) (fun _ => []) fun _ => [] :=
    Footing.of_steady ⟨rfl, rfl⟩ (fun _ _ _ _ _ => rfl) (fun hc => by cases hc)
      fun _ => Job.Gives.pure rfl
  obtain ⟨report, m', -, hrun, -⟩ := hfoot.walk hfiles ⟨"/t"⟩ m (Steady.refl trivial)
  exact ⟨report, m', hrun⟩

def terrain : Terrain := ⟨files, [], options, .execute, fun _ => .test⟩

theorem refused_mem {es : List Walk.Entry} (h : terrain.Visits ["t"] ⟨"/t"⟩ es)
    (hnone : ∀ v handed, Walk.Entry.worked ⟨"/t"⟩ v handed ∈ es → v = none) :
    Walk.Entry.refused ⟨"/t/x.dSYM"⟩ ∈ es := by
  have haccessible : terrain.Accessible ⟨"/t"⟩ := by decide +kernel
  have hsealed : ¬terrain.Accessible ⟨"/t/x.dSYM"⟩ := by decide +kernel
  cases h with
  | refused ha => exact absurd haccessible ha
  | bundled _ hb => exact absurd hb (by decide +kernel)
  | stayed _ _ _ hs =>
    obtain rfl := hnone _ _ (List.mem_singleton_self _)
    rcases hs with hr | hp
    · cases hr
    · cases hp
  | descended _ _ _ _ _ below =>
    have hmem : "x.dSYM" ∈ terrain.files.subdirectories ["t"] :=
      FileTree.mem_subdirectories.mpr ⟨⟨0⟩, by decide⟩
    refine List.mem_cons_of_mem _ (List.mem_flatMap.mpr ⟨"x.dSYM", hmem, ?_⟩)
    rw [(below "x.dSYM" hmem).eq_refused hsealed]
    exact List.mem_singleton_self _

/-- Such a directory is one that cannot be entered and lies in a bundle as well. -/
theorem bundle_inaccessible : ∃ report m' es,
    (walk Grove.context options .execute idle ⟨"/t"⟩).on machine = (.ok report, m') ∧
      Deeds Grove.context .execute idle (Walk.course ⟨"/t"⟩ es) machine m' ∧
      Walk.Books options .execute ⟨"/t"⟩ es report ∧ files.Leads ["t"] ["x.dSYM"] ∧
      ¬∃! s : Walk.Standing, s.Holds options es ⟨"/t"⟩ ["x.dSYM"] := by
  obtain ⟨report, m', hrun⟩ := walk_ok files wellFormed
  have hlasts : Lasts Grove.context .execute idle (Steady machine) :=
    lasts_steady (Skip.evaluate_steady fun _ _ _ _ => rfl) fun _ _ hm => ⟨hm, fun _ _ => trivial⟩
  have hsteady : Steady machine machine := Steady.refl trivial
  obtain ⟨es, hwalked⟩ := walk_walked hlasts hsteady hrun
  have hvisits : terrain.Visits ["t"] ⟨"/t"⟩ es :=
    hwalked.asked terrain ["t"] .newDirectory ⟨rfl, rfl, wellFormed, fun _ hm => hm.shows⟩ rfl
  have hleads : files.Leads ["t"] ["x.dSYM"] := by
    refine .down (FileTree.mem_subdirectories.mpr ⟨⟨0⟩, by decide⟩) (.here _)
  have hrefused : Path.mk "/t/x.dSYM" ∈ Walk.withLot .refused es :=
    Walk.mem_withLot.mpr ⟨_, refused_mem hvisits fun v handed hmem =>
      (hwalked.journal.sound _ hmem).1.mpr rfl, rfl, rfl⟩
  refine ⟨report, m', es, hrun, hwalked.done, hwalked.books hlasts hsteady (walk_balanced hrun),
    hleads, ?_⟩
  rintro ⟨s, -, honly⟩
  have hbundled := honly .bundled (show Terrain.InBundle ⟨"/t/x.dSYM"⟩ by decide +kernel)
  have hinaccessible := honly .inaccessible hrefused
  rw [← hbundled] at hinaccessible
  cases hinaccessible

end Sealed

end Regression
