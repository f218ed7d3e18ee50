import Regression.Proofs.Pieces

namespace Regression.Path

variable {p : Path} {s : String} {c : Component} {taken cs : List Component}

/-- Steps taken, the last one first, with nothing in them to take back: names after the root, or
after steps up. -/
inductive Settled : List Component → Prop where
  | start : Settled []
  | root : Settled [.root]
  | up {taken : List Component} (h : ∀ c ∈ taken, c = .up) : Settled (.up :: taken)
  | name {taken : List Component} {s : String} (hs : IsName s) (h : Settled taken) :
    Settled (.name s :: taken)

theorem Settled.settle (h : Settled taken) (hc : IsStep c) : Settled (settle taken c) := by
  cases c with
  | name s => exact .name hc h
  | root | current => cases hc
  | up =>
    cases h with
    | start => exact .up fun c hc => absurd hc List.not_mem_nil
    | root => exact .root
    | up h => exact .up (List.forall_mem_cons.mpr ⟨rfl, h⟩)
    | name hs h => exact h

theorem Settled.foldl (h : Settled taken) (hcs : ∀ c ∈ cs, IsStep c) :
    Settled (cs.foldl Path.settle taken) := by
  induction cs generalizing taken with
  | nil => exact h
  | cons c cs ih =>
    obtain ⟨hc, hrest⟩ := List.forall_mem_cons.mp hcs
    exact ih (h.settle hc) hrest

/-- What is settled is a route from the root, or from where one is. -/
theorem Settled.cases (h : Settled taken) : ∃ st cs, st ≠ Start.current ∧ (∀ c ∈ cs, IsStep c) ∧
    taken.reverse = st.components ++ cs := by
  induction h with
  | start => exact ⟨.plain, [], nofun, nofun, rfl⟩
  | root => exact ⟨.root, [], nofun, nofun, rfl⟩
  | @up taken h =>
    refine ⟨.plain, (Component.up :: taken).reverse, nofun, fun c hc => ?_, rfl⟩
    have hup : c = .up := by
      rcases List.mem_cons.mp (List.mem_reverse.mp hc) with hc | hc
      · exact hc
      · exact h c hc
    rw [hup]
    trivial
  | @name taken s hs h ih =>
    obtain ⟨st, cs, hst, hcs, htaken⟩ := ih
    refine ⟨st, cs ++ [.name s], hst, ?_, ?_⟩
    · exact List.forall_mem_append.mpr ⟨hcs, List.forall_mem_singleton.mpr hs⟩
    · rw [List.reverse_cons, htaken, List.append_assoc]

theorem Settled.components (h : Settled taken) :
    (ofComponents taken.reverse).components = taken.reverse := by
  obtain ⟨st, cs, hst, hcs, htaken⟩ := h.cases
  rw [htaken, components_ofComponents hst hcs]

/-- Nothing is taken back of a settled route. -/
theorem Settled.again (h : Settled taken) : taken.reverse.foldl Path.settle [] = taken := by
  rw [List.foldl_reverse]
  induction h with
  | start | root => rfl
  | @up taken h =>
    have hups : ∀ ups : List Component, (∀ c ∈ ups, c = .up) →
        ups.foldr (fun c taken => Path.settle taken c) [] = ups := by
      intro ups hups
      induction ups with
      | nil => rfl
      | cons c ups ih =>
        obtain ⟨rfl, hrest⟩ := List.forall_mem_cons.mp hups
        rw [List.foldr_cons, ih hrest]
        cases ups with
        | nil => rfl
        | cons c' ups =>
          rw [hrest c' List.mem_cons_self]
          rfl
    exact hups (.up :: taken) (List.forall_mem_cons.mpr ⟨rfl, h⟩)
  | name hs h ih =>
    rw [List.foldr_cons, ih]
    rfl

/-- The steps of a path that are not taken back, the last one first. -/
def settled (p : Path) : List Component := p.components.foldl settle []

theorem settled_eq (p : Path) :
    p.settled = p.route.foldl settle (if p.isAbsolute then [.root] else []) := by
  rw [settled, components_eq, List.foldl_append]
  congr 1
  by_cases h : p.isAbsolute = true
  · rw [start_of_absolute h, if_pos h]
    rfl
  · rw [if_neg h]
    cases hstart : p.start with
    | root => exact absurd (isAbsolute_of_start hstart) h
    | current | plain => rfl

theorem settled_settled (p : Path) : Settled p.settled := by
  rw [settled_eq]
  refine Settled.foldl ?_ fun c hc => isStep_of_mem_route hc
  split
  · exact .root
  · exact .start

theorem components_normalize (p : Path) : p.normalize.components = p.settled.reverse :=
  p.settled_settled.components

/-- Nothing is left to do for a path without detours. -/
theorem normalize_again (p : Path) : p.normalize.normalize = p.normalize := by
  rw [normalize, components_normalize, p.settled_settled.again]
  rfl

/-- The names that a settled route ends with, after the root or after steps up. -/
theorem Settled.split (h : Settled taken) : ∃ (names : List String) (base : List Component),
    (∀ s ∈ names, IsName s) ∧
    taken = names.map .name ++ base ∧ (base = [.root] ∨ ∀ c ∈ base, c = .up) := by
  induction h with
  | start => exact ⟨[], [], nofun, rfl, .inr nofun⟩
  | root => exact ⟨[], [.root], nofun, rfl, .inl rfl⟩
  | @up taken h => exact ⟨[], .up :: taken, nofun, rfl, .inr (List.forall_mem_cons.mpr ⟨rfl, h⟩)⟩
  | @name taken s hs h ih =>
    obtain ⟨names, base, hnames, rfl, hbase⟩ := ih
    exact ⟨s :: names, base, List.forall_mem_cons.mpr ⟨hs, hnames⟩, rfl, hbase⟩

/-- One step more from a place: a step up takes the last name back and stays at the root. -/
def descend (l : Location) : Component → Location
  | .root => []
  | .current => l
  | .up => l.tail
  | .name s => s :: l

/-- The place that a path names where nothing is a link. -/
def place (p : Path) : Location := p.components.foldl descend []

theorem settle_rooted (hc : IsStep c) (l : Location) :
    settle (l.map .name ++ [.root]) c = (descend l c).map .name ++ [.root] := by
  cases c with
  | root | current => cases hc
  | name s => rfl
  | up => cases l <;> rfl

theorem foldl_settle_rooted (h : ∀ c ∈ cs, IsStep c) (l : Location) :
    cs.foldl settle (l.map .name ++ [.root]) = (cs.foldl descend l).map .name ++ [.root] := by
  induction cs generalizing l with
  | nil => rfl
  | cons c cs ih =>
    obtain ⟨hc, hcs⟩ := List.forall_mem_cons.mp h
    rw [List.foldl_cons, List.foldl_cons, settle_rooted hc, ih hcs]

theorem place_eq (p : Path) : p.place = p.route.foldl descend [] := by
  rw [place, components_eq, List.foldl_append]
  cases p.start <;> rfl

theorem settled_of_absolute (h : p.isAbsolute = true) :
    p.settled = p.place.map .name ++ [.root] := by
  have hfold := foldl_settle_rooted (fun c hc => isStep_of_mem_route (p := p) hc) []
  rw [settled_eq, if_pos h, place_eq, ← hfold]
  rfl

theorem isName_descend {l : Location} (h : ∀ s ∈ l, IsName s) (hc : IsStep c) :
    ∀ s ∈ descend l c, IsName s := by
  cases c with
  | root | current => cases hc
  | name s => exact List.forall_mem_cons.mpr ⟨hc, h⟩
  | up => exact fun s hs => h s (List.mem_of_mem_tail hs)

theorem isName_foldl_descend {l : Location} (h : ∀ s ∈ l, IsName s) (hcs : ∀ c ∈ cs, IsStep c) :
    ∀ s ∈ cs.foldl descend l, IsName s := by
  induction cs generalizing l with
  | nil => exact h
  | cons c cs ih =>
    obtain ⟨hc, hrest⟩ := List.forall_mem_cons.mp hcs
    exact ih (isName_descend h hc) hrest

theorem isName_of_mem_place (h : s ∈ p.place) : IsName s := by
  rw [place_eq] at h
  exact isName_foldl_descend (fun s hs => absurd hs List.not_mem_nil)
    (fun c hc => isStep_of_mem_route hc) s h

/-- From the root no step up is left over: the path without detours is that of a place. -/
theorem normalize_of_absolute (h : p.isAbsolute = true) : p.normalize = Location.path p.place := by
  have hnormal : p.normalize = ofComponents p.settled.reverse := rfl
  rw [hnormal, settled_of_absolute h, List.reverse_append, ← List.map_reverse]
  change Path.mk ("/" ++ joined ((p.place.reverse.map Component.name).map Component.text)) = _
  rw [List.map_map]
  have hid : Component.text ∘ Component.name = id := rfl
  rw [hid, List.map_id]
  rfl

/-- From elsewhere no root gets in. -/
theorem not_root_settled (h : p.isAbsolute = false) : Component.root ∉ p.settled := by
  have hsteps : ∀ taken cs : List Component, .root ∉ taken → (∀ c ∈ cs, IsStep c) →
      Component.root ∉ cs.foldl settle taken := by
    intro taken cs htaken hcs
    induction cs generalizing taken with
    | nil => exact htaken
    | cons c cs ih =>
      obtain ⟨hc, hrest⟩ := List.forall_mem_cons.mp hcs
      refine ih _ ?_ hrest
      cases c with
      | root | current => cases hc
      | name s => exact List.not_mem_cons_of_ne_of_not_mem nofun htaken
      | up =>
        cases taken with
        | nil => exact List.not_mem_cons_of_ne_of_not_mem nofun htaken
        | cons d taken =>
          cases d with
          | root => exact absurd List.mem_cons_self htaken
          | name s => exact fun hmem => htaken (List.mem_cons_of_mem _ hmem)
          | up | current => exact List.not_mem_cons_of_ne_of_not_mem nofun htaken
  rw [settled_eq, h]
  exact hsteps [] p.route List.not_mem_nil fun c hc => isStep_of_mem_route hc

/-- A path without detours: names after the root, or else after as many steps up as are needed. -/
theorem components_split (p : Path) : ∃ (ups : Nat) (names : List String), (∀ s ∈ names, IsName s) ∧
    p.normalize.components =
      (if p.isAbsolute then [.root] else List.replicate ups .up) ++ names.map .name := by
  rw [components_normalize]
  by_cases h : p.isAbsolute = true
  · refine ⟨0, p.place.reverse, fun s hs => isName_of_mem_place (List.mem_reverse.mp hs), ?_⟩
    rw [settled_of_absolute h, if_pos h, List.reverse_append, List.map_reverse]
    rfl
  · obtain ⟨names, base, hnames, hsettled, hbase⟩ := p.settled_settled.split
    have hroot := not_root_settled (Bool.not_eq_true _ ▸ h)
    have hups : ∀ c ∈ base, c = .up := by
      refine hbase.resolve_left ?_
      rintro rfl
      exact hroot (by simp [hsettled])
    refine ⟨base.length, names.reverse, fun s hs => hnames s (List.mem_reverse.mp hs), ?_⟩
    rw [hsettled, if_neg h, List.reverse_append, List.map_reverse, List.eq_replicate_of_mem hups,
      List.reverse_replicate, List.length_replicate]

/-- One component more on a path that is built up. A step up looks at the last component so far: a
name goes, the root stays, and after nothing or another step up it is written down. -/
def extend (p : Path) : Component → Path
  | .current => p
  | .up =>
    match p.components.getLast? with
    | some (.name _) => p.parent.getD p
    | some .root => p
    | _ => p / ".."
  | c => p / Component.text c

/-- A step that is written down. -/
theorem join_step (h : Settled taken) (hc : IsStep c) :
    ofComponents taken.reverse / Component.text c = ofComponents (c :: taken).reverse := by
  obtain ⟨st, cs, hst, hcs, htaken⟩ := h.cases
  have hall : ∀ c' ∈ cs ++ [c], IsStep c' :=
    List.forall_mem_append.mpr ⟨hcs, List.forall_mem_singleton.mpr hc⟩
  rw [List.reverse_cons, htaken, List.append_assoc, ofComponents_eq hst hcs,
    ofComponents_eq hst hall, path_join hst (isPlain_texts hcs) (isPlain_text hc), List.map_append]
  rfl

theorem parent_step (h : Settled taken) (hs : IsName s) :
    (ofComponents (.name s :: taken).reverse).parent = some (ofComponents taken.reverse) := by
  obtain ⟨st, cs, hst, hcs, htaken⟩ := h.cases
  have hall : ∀ c ∈ cs ++ [.name s], IsStep c :=
    List.forall_mem_append.mpr ⟨hcs, List.forall_mem_singleton.mpr hs⟩
  rw [List.reverse_cons, htaken, List.append_assoc, ofComponents_eq hst hcs,
    ofComponents_eq hst hall, List.map_append]
  exact parent_path hst (isPlain_texts hcs) (isPlain_of_isName hs)

theorem extend_settled (h : Settled taken) (hc : IsStep c) :
    extend (ofComponents taken.reverse) c = ofComponents (settle taken c).reverse := by
  cases c with
  | root | current => cases hc
  | name s => exact join_step h hc
  | up =>
    rw [extend, h.components, List.getLast?_reverse]
    cases h with
    | start => rfl
    | root => rfl
    | up h =>
      have hkeep : ∀ rest : List Component, settle (.up :: rest) .up = .up :: .up :: rest :=
        fun _ => rfl
      rw [hkeep]
      exact join_step (c := .up) (.up h) trivial
    | name hs h =>
      simp only [List.head?_cons, parent_step h hs, Option.getD_some]
      rfl

/-- Building a path up component by component takes its detours out. -/
theorem foldl_extend (p : Path) : p.components.foldl extend ⟨""⟩ = p.normalize := by
  have hsteps : ∀ taken cs : List Component, Settled taken → (∀ c ∈ cs, IsStep c) →
      cs.foldl extend (ofComponents taken.reverse) =
        ofComponents (cs.foldl settle taken).reverse := by
    intro taken cs h hcs
    induction cs generalizing taken with
    | nil => rfl
    | cons c cs ih =>
      obtain ⟨hc, hrest⟩ := List.forall_mem_cons.mp hcs
      rw [List.foldl_cons, extend_settled h hc, ih _ (h.settle hc) hrest, List.foldl_cons]
  have hroute : ∀ c ∈ p.route, IsStep c := fun c hc => isStep_of_mem_route hc
  rw [normalize, components_eq, List.foldl_append, List.foldl_append]
  cases p.start with
  | root => exact hsteps [.root] p.route .root hroute
  | current | plain => exact hsteps [] p.route .start hroute

end Regression.Path
