import Mathlib.Data.List.Flatten
import Regression.Proofs.Census

namespace Regression

namespace Walk

variable {lot : Lot} {v : Verdict} {handed : Bool} {es : List Entry} {e : Entry}

/-- What becomes of a directory, whether or not it holds tests. -/
def Lot.cover : Lot → Lot
  | empty => handled
  | lot => lot

def Entry.cover (e : Entry) : Path × Lot := (e.directory, e.lot.cover)

theorem lotOf_cover (v : Verdict) (handed : Bool) : (lotOf v handed).cover =
    match v.directive with
    | .prune _ => .pruned
    | .skipSelf _ => .skipped
    | .test => .handled := by
  unfold lotOf
  cases v.directive with
  | test => cases handed <;> rfl
  | _ => rfl

theorem lotOf_eq_handled : lotOf v handed = .handled ↔ v.directive = .test ∧ handed = true := by
  unfold lotOf
  cases v.directive with
  | test => cases handed <;> simp
  | _ => simp

theorem withLot_cons (lot : Lot) (e : Entry) (es : List Entry) : withLot lot (e :: es) =
    (if e.lot = lot then [e.directory] else []) ++ withLot lot es := by
  by_cases h : e.lot = lot <;> simp [withLot, h]

theorem withLot_flatMap (lot : Lot) (names : List String) (rest : String → List Entry) :
    withLot lot (names.flatMap rest) = names.flatMap fun s => withLot lot (rest s) := by
  simp [withLot, List.filter_flatMap, List.map_flatMap]

/-- The verdicts that count are those of `heed`. -/
def Heeds (heed : Path → SkipDirective) (es : List Entry) : Prop :=
  ∀ d v handed, .worked d v handed ∈ es → (Entry.heeded v).directive = heed d

end Walk

namespace Terrain.Visits

open Walk

variable {w : Terrain} {l : Location} {d : Path} {es es' : List Entry}
  {heed : Path → SkipDirective}

theorem eq_nil (h : w.Visits l d es) (ha : w.Accessible d) (hb : InBundle d) : es = [] := by
  cases h with
  | refused ha' => exact absurd ha ha'
  | bundled _ _ => rfl
  | stayed _ hb' _ _ => exact absurd hb hb'
  | descended _ hb' _ _ _ _ => exact absurd hb hb'

/-- A directory that is worked on, and what comes after it. -/
theorem exists_worked (h : w.Visits l d es) (ha : w.Accessible d) (hb : ¬InBundle d) :
    ∃ v handed rest, es = .worked d v handed :: rest ∧
      (handed = true ↔ (Entry.heeded v).directive = .test ∧ (w.mode = .graph ∨ w.Eligible l d)) ∧
      (w.options.recurse = false ∨ (Entry.heeded v).directive.prunesChildren = true → rest = []) ∧
      (w.options.recurse = true → (Entry.heeded v).directive.prunesChildren = false →
        ∃ branch : String → List Entry, rest = (w.files.subdirectories l).flatMap branch ∧
          ∀ s ∈ w.files.subdirectories l, w.Visits (s :: l) (d / s) (branch s)) := by
  cases h with
  | refused ha' => exact absurd ha ha'
  | bundled _ hb' => exact absurd hb' hb
  | stayed _ _ hh hs =>
    refine ⟨_, _, [], rfl, hh, fun _ => rfl, fun hr hopen => ?_⟩
    rcases hs with hr' | hp
    · cases hr.symm.trans hr'
    · cases hp.symm.trans hopen
  | descended _ _ hh hr hopen below =>
    refine ⟨_, _, _, rfl, hh, fun hs => ?_, fun _ _ => ⟨_, rfl, below⟩⟩
    rcases hs with hr' | hp
    · cases hr.symm.trans hr'
    · cases hp.symm.trans hopen

theorem heeds_branch {names : List String} {branch : String → List Entry} {first : Entry}
    (h : Heeds heed (first :: names.flatMap branch)) {s : String} (hs : s ∈ names) :
    Heeds heed (branch s) := fun p v handed he =>
  h p v handed (List.mem_cons_of_mem _ (List.mem_flatMap.mpr ⟨s, hs, he⟩))

theorem cover_worked {v v' : Option Verdict} {handed handed' : Bool}
    (hv : (Entry.heeded v).directive = heed d) (hv' : (Entry.heeded v').directive = heed d) :
    (Entry.worked d v handed).cover = (Entry.worked d v' handed').cover := by
  simp only [Entry.cover, Entry.directory, Entry.lot, lotOf_cover, hv, hv']

/-- Walks of two modes come to the same directories, which stand alike but for their tests. -/
theorem cover_eq (h : w.Visits l d es) (mode : RunMode)
    (h' : ({ w with mode } : Terrain).Visits l d es')
    (hv : Heeds heed es) (hv' : Heeds heed es') : es.map Entry.cover = es'.map Entry.cover := by
  induction h generalizing es' with
  | refused ha => rw [h'.eq_refused ha]
  | bundled ha hb => rw [h'.eq_nil ha hb]
  | stayed ha hb _ hs =>
    obtain ⟨v', handed', rest', rfl, -, hstop, -⟩ := h'.exists_worked ha hb
    have hd := hv _ _ _ List.mem_cons_self
    have hd' := hv' _ _ _ List.mem_cons_self
    obtain rfl := hstop (by rwa [hd', ← hd])
    rw [List.map_cons, List.map_cons, cover_worked hd hd']
  | descended ha hb _ hr hopen _ ih =>
    obtain ⟨v', handed', rest', rfl, -, -, hgo⟩ := h'.exists_worked ha hb
    have hd := hv _ _ _ List.mem_cons_self
    have hd' := hv' _ _ _ List.mem_cons_self
    obtain ⟨branch', rfl, below'⟩ := hgo hr (by rwa [hd', ← hd])
    rw [List.map_cons, List.map_cons, cover_worked hd hd', List.map_flatMap, List.map_flatMap]
    exact congrArg _ (List.flatMap_congr fun s hs =>
      ih s hs (below' s hs) (heeds_branch hv hs) (heeds_branch hv' hs))

theorem worked_handled_iff (d : Path) {v : Option Verdict} {handed : Bool} {p : Prop}
    (hh : handed = true ↔ (Entry.heeded v).directive = .test ∧ p) :
    (Entry.worked d v handed).lot = .handled ↔ (Entry.heeded v).directive = .test ∧ p :=
  lotOf_eq_handled.trans ⟨fun h => hh.mp h.2, fun h => ⟨h.1, hh.mpr h⟩⟩

theorem handled_of_test (d : Path) {v v' : Option Verdict} {handed handed' : Bool} {p : Prop}
    (hh : handed = true ↔ (Entry.heeded v).directive = .test ∧ p)
    (hh' : handed' = true ↔ (Entry.heeded v').directive = .test ∧ p)
    (hv' : (Entry.heeded v').directive = .test) :
    (if (Entry.worked d v handed).lot = .handled then [d] else []).Sublist
      (if (Entry.worked d v' handed').lot = .handled then [d] else []) := by
  split
  · next h => rw [if_pos ((worked_handled_iff d hh').mpr ⟨hv', ((worked_handled_iff d hh).mp h).2⟩)]
  · exact List.nil_sublist _

/-- A walk that only cleans handles all that another handles. -/
theorem handled_sublist (h : w.Visits l d es)
    (h' : ({ w with options := { w.options with cleanOnly := true } } : Terrain).Visits l d es')
    (hv' : Heeds (fun _ => .test) es') :
    (withLot .handled es).Sublist (withLot .handled es') := by
  induction h generalizing es' with
  | refused ha => rw [h'.eq_refused ha]
  | bundled ha hb => rw [h'.eq_nil ha hb]
  | @stayed l d v handed ha hb hh hs =>
    obtain ⟨v', handed', rest', rfl, hh', -, -⟩ := h'.exists_worked ha hb
    have hkept := handled_of_test d hh hh' (hv' _ _ _ List.mem_cons_self)
    rw [withLot_cons, withLot_cons]
    exact List.Sublist.append hkept (List.nil_sublist _)
  | @descended l d v handed rest ha hb hh hr hopen _ ih =>
    obtain ⟨v', handed', rest', rfl, hh', -, hgo⟩ := h'.exists_worked ha hb
    have hd' := hv' _ _ _ List.mem_cons_self
    have hkept := handled_of_test d hh hh' hd'
    obtain ⟨branch', rfl, below'⟩ := hgo hr (by rw [hd']; rfl)
    rw [withLot_cons, withLot_cons, withLot_flatMap, withLot_flatMap]
    exact List.Sublist.append hkept (List.Sublist.flatMap_right _ fun s hs =>
      ih s hs (below' s hs) (heeds_branch hv' hs))

/-- A walk that does not recurse handles the directory it starts from, if another handles that, and no
other. -/
theorem handled_prefix
    (h : ({ w with options := { w.options with recurse := false } } : Terrain).Visits l d es)
    (h' : ({ w with options := { w.options with recurse := true } } : Terrain).Visits l d es')
    (hv : Heeds heed es) (hv' : Heeds heed es') :
    withLot .handled es <+: withLot .handled es' ∧ (withLot .handled es).length ≤ 1 := by
  by_cases ha : w.Accessible d
  · by_cases hb : InBundle d
    · rw [h.eq_nil ha hb, h'.eq_nil ha hb]
      exact ⟨List.prefix_refl _, Nat.zero_le _⟩
    · obtain ⟨v, handed, rest, rfl, hh, hstop, -⟩ := h.exists_worked ha hb
      obtain ⟨v', handed', rest', rfl, hh', -, -⟩ := h'.exists_worked ha hb
      obtain rfl := hstop (.inl rfl)
      have hd := hv _ _ _ List.mem_cons_self
      have hd' := hv' _ _ _ List.mem_cons_self
      have hiff : (Entry.worked d v handed).lot = .handled ↔
          (Entry.worked d v' handed').lot = .handled := by
        rw [worked_handled_iff d hh, worked_handled_iff d hh', hd, hd']
        exact Iff.rfl
      have hnone : withLot .handled [] = [] := rfl
      rw [withLot_cons, withLot_cons, if_congr hiff rfl rfl, hnone, List.append_nil]
      exact ⟨List.prefix_append _ _, by split <;> simp⟩
  · rw [h.eq_refused ha, h'.eq_refused ha]
    exact ⟨List.prefix_refl _, Nat.zero_le _⟩

end Terrain.Visits

namespace Walk

/-- A walk: what it is asked for, and the machine that it starts from. -/
structure Pass where
  options : WalkOptions
  mode : RunMode
  handle : Handler
  start : Machine

/-- It succeeds on the tree `t`, which stays as it is meanwhile, and the markers of a directory always
say what `directive` says. -/
structure Pass.Over (c : Context) (root : Path) (t : FileTree) (cwd : Location)
    (directive : Path → SkipDirective) (p : Pass) : Prop where
  run : ∃ report n', (walk c p.options p.mode p.handle root).on p.start = (.ok report, n')
  shows : ∀ m, Reached c p.mode p.handle p.start m → m.Shows t cwd
  judges : ∀ m d, Reached c p.mode p.handle p.start m →
    ((Skip.evaluate c d).on m).1.directive = directive d

/-- What the walks of `among` have to do with each other, where `es` are the entries of each. -/
structure Passes (among : Pass → Prop) (es : Pass → List Entry) : Prop where
  same : ∀ p q, among p → among q → p.options = q.options → visited (es p) = visited (es q) ∧
    ∀ lot ∈ [Lot.refused, .pruned, .skipped], withLot lot (es p) = withLot lot (es q)
  graphed : ∀ q, among q → q.mode = .graph → withLot .handled (es q) =
    (visited (es q)).filter fun d => d ∉ withLot .pruned (es q) ∧ d ∉ withLot .skipped (es q)
  chosen : ∀ p q, among p → among q → p.options = q.options → q.mode = .graph →
    (withLot .handled (es p)).Sublist (withLot .handled (es q))
  /-- A session that tests performance also graphs. -/
  charted : ∀ s : Settings, .performance ∈ s.directoryPasses → .graph ∈ s.directoryPasses ∧
    ∀ p q, among p → among q → p.options = Phases.walkOptions s →
      q.options = Phases.walkOptions s → p.mode = .performance → q.mode = .graph →
      withLot .handled (es p) ⊆ withLot .handled (es q)
  cleaned : ∀ p q, among p → among q → p.mode = q.mode →
    q.options = { p.options with cleanOnly := true } →
    (withLot .handled (es p)).Sublist (withLot .handled (es q))
  alone : ∀ p q, among p → among q → p.mode = q.mode → p.options.recurse = false →
    q.options = { p.options with recurse := true } →
    withLot .handled (es p) <+: withLot .handled (es q) ∧ (withLot .handled (es p)).length ≤ 1

/-- Directories by what covers them. -/
theorem filter_cover (p q : Lot → Prop) [DecidablePred p] [DecidablePred q] {es : List Entry}
    (h : ∀ e ∈ es, p e.lot ↔ q e.lot.cover) : (es.filter fun e => p e.lot).map Entry.directory =
      ((es.map Entry.cover).filter fun c => q c.2).map (·.1) := by
  rw [List.filter_map, List.map_map]
  exact congrArg _ (List.filter_congr fun e he => decide_eq_decide.mpr (h e he))

theorem withLot_of_cover {lot : Lot} (hlot : lot ∈ [Lot.refused, .pruned, .skipped])
    (es : List Entry) :
    withLot lot es = ((es.map Entry.cover).filter fun c => c.2 = lot).map (·.1) := by
  refine filter_cover (· = lot) (· = lot) fun e _ => ?_
  simp only [List.mem_cons, List.not_mem_nil, or_false] at hlot
  rcases hlot with rfl | rfl | rfl <;> cases e.lot <;> simp [Lot.cover]

theorem visited_of_cover (es : List Entry) :
    visited es = ((es.map Entry.cover).filter fun c => c.2 ≠ .refused).map (·.1) := by
  refine filter_cover (· ≠ .refused) (· ≠ .refused) fun e _ => ?_
  cases e.lot <;> simp [Lot.cover]

/-- What a pass for graphs handles. -/
theorem handled_of_cover {es : List Entry} (h : ∀ e ∈ es, e.lot ≠ .empty) :
    withLot .handled es = ((es.map Entry.cover).filter fun c => c.2 = .handled).map (·.1) := by
  refine filter_cover (· = .handled) (· = .handled) fun e he => ?_
  have hne := h e he
  cases hlot : e.lot <;> simp_all [Lot.cover]

/-- What any other handles. -/
theorem handled_sublist_cover (es : List Entry) : (withLot .handled es).Sublist
    (((es.map Entry.cover).filter fun c => c.2 = .handled).map (·.1)) := by
  rw [← filter_cover (fun lot => lot.cover = .handled) (· = .handled) fun _ _ => Iff.rfl]
  refine (List.monotone_filter_right es fun e he => ?_).map _
  simp only [decide_eq_true_eq] at he ⊢
  rw [he]
  rfl

/-- Where no directory is met twice, what is handled for graphs is what is neither pruned nor
skipped. -/
theorem handled_eq_filter {es : List Entry} (hempty : ∀ e ∈ es, e.lot ≠ .empty)
    (honce : (es.map Entry.directory).Nodup) : withLot .handled es =
      (visited es).filter fun d => d ∉ withLot .pruned es ∧ d ∉ withLot .skipped es := by
  have hmem : ∀ e ∈ es, ∀ lot, e.directory ∈ withLot lot es ↔ e.lot = lot := by
    intro e he lot
    rw [mem_withLot]
    constructor
    · rintro ⟨e', he', hlot, hdir⟩
      rwa [← List.inj_on_of_nodup_map honce he' he hdir]
    · exact fun hlot => ⟨e, he, hlot, rfl⟩
  rw [withLot, visited, List.filter_map, List.filter_filter]
  refine congrArg _ (List.filter_congr fun e he => ?_)
  have hne := hempty e he
  simp only [Function.comp_apply, hmem e he]
  cases hlot : e.lot <;> simp_all

variable {c : Context} {root : Path} {t : FileTree} {cwd l : Location} {dm : Mode}
  {directive : Path → SkipDirective} {p : Pass}

/-- The tree as a walk over it goes by it. -/
def Pass.terrain (p : Pass) (t : FileTree) (cwd : Location) (directive : Path → SkipDirective) :
    Terrain := ⟨t, cwd, p.options, p.mode, directive⟩

/-- The entries of a walk over a tree. -/
structure Pass.Enters (c : Context) (root : Path) (t : FileTree) (cwd l : Location)
    (directive : Path → SkipDirective) (p : Pass) (es : List Entry) : Prop where
  done : ∃ report n', (walk c p.options p.mode p.handle root).on p.start = (.ok report, n') ∧
    Deeds c p.mode p.handle (course root es) p.start n' ∧ Books p.options p.mode root es report
  visits : (p.terrain t cwd directive).Visits l root es
  heeds : Heeds (p.terrain t cwd directive).heeded es
  graphs : p.mode = .graph → ∀ e ∈ es, e.lot ≠ .empty

/-- Entries have the verdicts that were found. -/
theorem Walked.heeds {w : Terrain} {handle : Handler} {I : Machine → Prop} {report : WalkReport}
    {n n' : Machine} {es : List Entry}
    (h : Walked c w.options w.mode handle I root n report n' es)
    (hI : Lasts c w.mode handle I) (hn : I n)
    (hskip : ∀ m d, I m → ((Skip.evaluate c d).on m).1.directive = w.directive d) :
    Heeds w.heeded es := by
  intro d v handed he
  have hsound := (h.journal.sound _ he).1
  cases v with
  | none => simp [Terrain.heeded, hsound.mp rfl, Entry.heeded]
  | some v =>
    obtain ⟨m, m', hm, hjudged⟩ := h.judged hI hn he
    have hdirective := hskip m d hm
    rw [hjudged] at hdirective
    have hclean : w.options.cleanOnly ≠ true := fun hc => by cases hsound.mpr hc
    rw [Terrain.heeded, if_neg hclean]
    exact hdirective

theorem Pass.Over.exists_enters (h : p.Over c root t cwd directive) (ht : t.WellFormed)
    (hroot : t.findItself cwd root = .ok (l, .directory dm)) :
    ∃ es, p.Enters c root t cwd l directive es := by
  obtain ⟨report, n', hrun⟩ := h.run
  have hI := lasts_reached c p.mode p.handle p.start
  have hn : Reached c p.mode p.handle p.start p.start := .refl p.start
  obtain ⟨es, hwalked⟩ := walk_walked hI hn hrun
  refine ⟨es, ⟨report, n', hrun, hwalked.done, hwalked.books hI hn (walk_balanced hrun)⟩, ?_, ?_,
    hwalked.journal.not_empty⟩
  · exact hwalked.asked (p.terrain t cwd directive) l dm ⟨rfl, rfl, ht, h.shows⟩ hroot
  · exact Walked.heeds (w := p.terrain t cwd directive) hwalked hI hn h.judges

namespace Pass.Enters

variable {q : Pass} {es es' : List Entry}

/-- A walk that only cleans heeds no markers. -/
theorem heeds_test (h : p.Enters c root t cwd l directive es) (hc : p.options.cleanOnly = true) :
    Heeds (fun _ => .test) es := by
  intro d v handed he
  rw [h.heeds d v handed he]
  exact if_pos hc

theorem cover_eq (h : p.Enters c root t cwd l directive es)
    (h' : q.Enters c root t cwd l directive es') (ho : p.options = q.options) :
    es.map Entry.cover = es'.map Entry.cover := by
  obtain ⟨o, mode, handle, start⟩ := p
  obtain ⟨o', mode', handle', start'⟩ := q
  obtain rfl : o = o' := ho
  exact h.visits.cover_eq mode' h'.visits h.heeds h'.heeds

theorem handled_graphed (h : p.Enters c root t cwd l directive es)
    (h' : q.Enters c root t cwd l directive es') (ho : p.options = q.options)
    (hgraph : q.mode = .graph) : (withLot .handled es).Sublist (withLot .handled es') := by
  rw [handled_of_cover (h'.graphs hgraph), ← h.cover_eq h' ho]
  exact handled_sublist_cover es

theorem handled_cleaned (h : p.Enters c root t cwd l directive es)
    (h' : q.Enters c root t cwd l directive es') (hmode : p.mode = q.mode)
    (ho : q.options = { p.options with cleanOnly := true }) :
    (withLot .handled es).Sublist (withLot .handled es') := by
  obtain ⟨o, mode, handle, start⟩ := p
  obtain ⟨o', mode', handle', start'⟩ := q
  obtain rfl : mode = mode' := hmode
  obtain rfl : o' = { o with cleanOnly := true } := ho
  exact h.visits.handled_sublist h'.visits (h'.heeds_test rfl)

theorem handled_alone (h : p.Enters c root t cwd l directive es)
    (h' : q.Enters c root t cwd l directive es') (hmode : p.mode = q.mode)
    (hr : p.options.recurse = false) (ho : q.options = { p.options with recurse := true }) :
    withLot .handled es <+: withLot .handled es' ∧ (withLot .handled es).length ≤ 1 := by
  obtain ⟨⟨recurse, cleanOnly, perfKeys⟩, mode, handle, start⟩ := p
  obtain ⟨o', mode', handle', start'⟩ := q
  obtain rfl : mode = mode' := hmode
  obtain rfl : recurse = false := hr
  obtain rfl : o' = ⟨true, cleanOnly, perfKeys⟩ := ho
  exact Terrain.Visits.handled_prefix (w := ⟨t, cwd, ⟨true, cleanOnly, perfKeys⟩, mode, directive⟩)
    h.visits h'.visits h.heeds h'.heeds

end Pass.Enters

end Walk

theorem Settings.graph_of_performance {s : Settings} (h : .performance ∈ s.directoryPasses) :
    .graph ∈ s.directoryPasses := by
  unfold directoryPasses at h ⊢
  split at h
  · next hperformance =>
    rw [if_pos hperformance]
    simp
  · split at h <;> simp at h

/-- Walks over one tree, whatever their handlers, and from whichever machines they start, as where one
follows the other. -/
theorem walk_passes (c : Context) (directive : Path → SkipDirective) {root : Path} {t : FileTree}
    {cwd l : Location} {dm : Mode} (ht : t.WellFormed)
    (hroot : t.findItself cwd root = .ok (l, .directory dm)) :
    ∃ es : Walk.Pass → List Walk.Entry, Walk.Passes (Walk.Pass.Over c root t cwd directive) es ∧
      ∀ p : Walk.Pass, p.Over c root t cwd directive → ∃ report n',
        (walk c p.options p.mode p.handle root).on p.start = (.ok report, n') ∧
        Deeds c p.mode p.handle (Walk.course root (es p)) p.start n' ∧
        Walk.Books p.options p.mode root (es p) report := by
  have hall : ∀ p : Walk.Pass, ∃ es, p.Over c root t cwd directive →
      p.Enters c root t cwd l directive es := by
    intro p
    by_cases hp : p.Over c root t cwd directive
    · obtain ⟨es, hes⟩ := hp.exists_enters ht hroot
      exact ⟨es, fun _ => hes⟩
    · exact ⟨[], fun hp' => absurd hp' hp⟩
  choose es hes using hall
  refine ⟨es, ?_, fun p hp => (hes p hp).done⟩
  have hfilled : root.text ≠ "" := FileTree.text_ne_of_checkPath (FileTree.findAt_ok hroot).1
  have hcover := fun p q hp hq => (hes p hp).cover_eq (hes q hq)
  have hgraphed := fun p q hp hq => (hes p hp).handled_graphed (hes q hq)
  constructor
  case same =>
    intro p q hp hq ho
    refine ⟨?_, fun lot hlot => ?_⟩
    · rw [Walk.visited_of_cover, Walk.visited_of_cover, hcover p q hp hq ho]
    · rw [Walk.withLot_of_cover hlot, Walk.withLot_of_cover hlot, hcover p q hp hq ho]
  case graphed =>
    exact fun q hq hgraph => Walk.handled_eq_filter ((hes q hq).graphs hgraph)
      ((hes q hq).visits.once ht hfilled)
  case chosen => exact hgraphed
  case charted =>
    refine fun s hperformance => ⟨Settings.graph_of_performance hperformance, ?_⟩
    exact fun p q hp hq ho ho' _ hgraph => (hgraphed p q hp hq (ho.trans ho'.symm) hgraph).subset
  case cleaned => exact fun p q hp hq => (hes p hp).handled_cleaned (hes q hq)
  case alone => exact fun p q hp hq => (hes p hp).handled_alone (hes q hq)

namespace Grove

/-- All walks over this tree that take down where they come. -/
theorem pass_over (o : WalkOptions) (mode : RunMode) :
    Walk.Pass.Over context ⟨"/t"⟩ files [] directive ⟨o, mode, mark, machine⟩ := by
  have hlasts : Lasts context mode mark (Steady machine) :=
    lasts_steady evaluate_stays fun d n hn =>
      ⟨⟨hn.files, hn.directory, hn.tools, hn.log⟩, fun _ _ => trivial⟩
  have hsteady : ∀ m, Reached context mode mark machine m → Steady machine m :=
    fun m hm => hm.lasting hlasts (Steady.refl trivial)
  have hfoot : Footing context ⟨files, [], o, mode, directive⟩ mark (Steady machine) marks
      (fun _ => []) fun d => [d] :=
    Footing.of_steady ⟨rfl, rfl⟩ unwritten (fun _ => directive_gives) mark_gives
  obtain ⟨report, n', _, hrun, -⟩ := hfoot.walk wellFormed ⟨"/t"⟩ machine (Steady.refl trivial)
  refine ⟨⟨report, n', hrun⟩, fun m hm => (hsteady m hm).shows, fun m d hm => ?_⟩
  obtain ⟨_, -, -, hdirective, -⟩ := directive_gives d m (hsteady m hm)
  exact hdirective

theorem walk_passes_grove : ∃ es : Walk.Pass → List Walk.Entry,
    Walk.Passes (Walk.Pass.Over context ⟨"/t"⟩ files [] directive) es ∧
    ∀ o mode, Walk.Pass.Over context ⟨"/t"⟩ files [] directive ⟨o, mode, mark, machine⟩ := by
  obtain ⟨es, hpasses, -⟩ := walk_passes context directive wellFormed
    (show files.findItself [] ⟨"/t"⟩ = .ok (["t"], .directory .newDirectory) from rfl)
  exact ⟨es, hpasses, pass_over⟩

end Grove

end Regression
