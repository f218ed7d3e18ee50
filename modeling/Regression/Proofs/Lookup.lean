import Regression.Proofs.Steps

namespace Regression.FileTree

variable {t : FileTree} {cwd l l' : Location} {p : Path} {s : String} {dm : Mode}

/-- More names after a route go on from where the route leads, links at its end followed. -/
theorem reach_append (t : FileTree) (follow : Bool) {ys : List String} (hys : ys ≠ [])
    (xs : List String) (l : Location) :
    t.reach follow l (xs ++ ys) =
      match t.reach true l xs with
      | .arrived l' => t.reach follow l' ys
      | .absent _ => .refused .notFound
      | .refused f => .refused f
      | .link l' target rest => .link l' target (rest ++ ys) := by
  induction xs generalizing l with
  | nil => rfl
  | cons s rest ih =>
    simp only [List.cons_append, reach]
    cases t.node? l with
    | none => rfl
    | some n =>
      cases n with
      | directory m =>
        simp only []
        split
        · exact ih l
        · split
          · rfl
          · split
            · exact ih l
            · split
              · exact ih l.tail
              · split
                · rfl
                · cases t.node? (s :: l) with
                  | none => cases rest <;> simp [hys]
                  | some n =>
                    cases n with
                    | link target => cases rest <;> simp [hys]
                    | directory => exact ih (s :: l)
                    | file => exact ih (s :: l)
                    | device => exact ih (s :: l)
      | _ => rfl

theorem travel_eq (t : FileTree) (follow : Bool) (links : Nat) (l : Location)
    (names : List String) :
    t.travel follow links l names =
      match t.reach follow l names with
      | .arrived l => .ok (l, true)
      | .absent l => .ok (l, false)
      | .refused f => .error f
      | .link l target rest =>
        match links with
        | 0 => .error .linkLoop
        | links + 1 =>
          t.travel follow links (if Path.isAbsolute ⟨target⟩ then [] else l)
            (steps ⟨target⟩ ++ rest) :=
  travel.eq_def t follow links l names

/-- A longer route passes through the place where its start leads, with the links that are then
left. -/
theorem travel_on {links : Nat} {xs : List String} (h : t.travel true links l xs = .ok (l', true)) :
    ∃ left, ∀ follow ys, ys ≠ [] → t.travel follow links l (xs ++ ys) = t.travel follow left l' ys := by
  induction links generalizing l xs with
  | zero =>
    rw [travel_eq] at h
    cases hr : t.reach true l xs <;> rw [hr] at h <;> cases h
    refine ⟨0, fun follow ys hys => ?_⟩
    rw [travel_eq, reach_append t follow hys, hr, travel_eq t follow 0 l']
  | succ links ih =>
    rw [travel_eq] at h
    cases hr : t.reach true l xs with
    | link d target rest =>
      rw [hr] at h
      obtain ⟨left, hgo⟩ := ih h
      refine ⟨left, fun follow ys hys => ?_⟩
      rw [travel_eq, reach_append t follow hys, hr, ← hgo follow ys hys, List.append_assoc]
    | arrived d =>
      rw [hr] at h
      cases h
      refine ⟨links + 1, fun follow ys hys => ?_⟩
      rw [travel_eq, reach_append t follow hys, hr, travel_eq t follow (links + 1) l']
    | _ =>
      rw [hr] at h
      cases h

/-- Where its start leads nowhere, a longer route does not either. -/
theorem travel_off {links : Nat} {xs : List String}
    (h : ∀ l', t.travel true links l xs ≠ .ok (l', true)) (follow : Bool) {ys : List String}
    (hys : ys ≠ []) : ∃ f, t.travel follow links l (xs ++ ys) = .error f := by
  induction links generalizing l xs with
  | zero =>
    cases hr : t.reach true l xs with
    | arrived l' => exact absurd (by rw [travel_eq, hr]) (h l')
    | _ => exact ⟨_, by rw [travel_eq, reach_append t follow hys, hr]⟩
  | succ links ih =>
    cases hr : t.reach true l xs with
    | arrived l' => exact absurd (by rw [travel_eq, hr]) (h l')
    | link d target rest =>
      have hgo : ∀ l', t.travel true links (if Path.isAbsolute ⟨target⟩ then [] else d)
          (steps ⟨target⟩ ++ rest) ≠ .ok (l', true) := by
        intro l' hl'
        exact h l' (by rw [travel_eq, hr]; exact hl')
      obtain ⟨f, hf⟩ := ih hgo
      rw [List.append_assoc] at hf
      exact ⟨f, by rw [travel_eq, reach_append t follow hys, hr]; exact hf⟩
    | _ => exact ⟨_, by rw [travel_eq, reach_append t follow hys, hr]⟩

/-- A longer route passes through the place where its start leads, or it leads nowhere. -/
theorem travel_append (t : FileTree) (links : Nat) (l : Location) (xs : List String) :
    (∃ l' left, t.travel true links l xs = .ok (l', true) ∧
      ∀ follow ys, ys ≠ [] → t.travel follow links l (xs ++ ys) = t.travel follow left l' ys) ∨
    ∀ follow ys, ys ≠ [] → ∃ f, t.travel follow links l (xs ++ ys) = .error f := by
  by_cases h : ∃ l', t.travel true links l xs = .ok (l', true)
  · obtain ⟨l', hl'⟩ := h
    obtain ⟨left, hgo⟩ := travel_on hl'
    exact .inl ⟨l', left, hl', hgo⟩
  · exact .inr fun follow ys hys => travel_off (fun l' hl' => h ⟨l', hl'⟩) follow hys

/-- One step down to a directory is made or refused. -/
theorem reach_name (follow : Bool) (hs : IsName s) (hn : t.node? (s :: l) = some (.directory dm)) :
    t.reach follow l [s] = .arrived (s :: l) ∨ ∃ f, t.reach follow l [s] = .refused f := by
  simp only [reach, hn, if_neg hs.filled, if_neg hs.notHere, if_neg hs.notUp]
  split
  · split
    · exact .inr ⟨_, rfl⟩
    · split
      · exact .inr ⟨_, rfl⟩
      · exact .inl rfl
  · exact .inr ⟨_, rfl⟩
  · exact .inr ⟨_, rfl⟩

/-- The step that a separator at the end of a path asks for leads nowhere else. -/
theorem reach_here (t : FileTree) (follow : Bool) (l : Location) :
    t.reach follow l [""] = .arrived l ∨ ∃ f, t.reach follow l [""] = .refused f := by
  simp only [reach, if_pos]
  split
  · exact .inl rfl
  · exact .inr ⟨_, rfl⟩
  · exact .inr ⟨_, rfl⟩

theorem travel_of_reach {follow : Bool} {links : Nat} {names : List String}
    {found : Location × Bool}
    (hr : t.reach follow l names = .arrived l' ∨ ∃ f, t.reach follow l names = .refused f)
    (h : t.travel follow links l names = .ok found) : found = (l', true) := by
  rw [travel_eq] at h
  rcases hr with hr | ⟨f, hr⟩ <;> rw [hr] at h
  · exact (Except.ok.inj h).symm
  · cases h

theorem text_ne_of_checkPath {u : Unit} (h : checkPath p = .ok u) : p.text ≠ "" := by
  intro he
  simp [checkPath, he] at h

theorem locate_eq (t : FileTree) (follow : Bool) (cwd : Location) (p : Path) :
    t.locate follow cwd p =
      checkPath p >>= fun _ => t.travel follow linkLimit (p.origin cwd) (steps p) := rfl

/-- What a lookup that found something has done. -/
theorem findAt_ok {follow : Bool} {n : Node} (h : t.findAt follow cwd p = .ok (l, n)) :
    checkPath p = .ok () ∧ (∃ there, t.travel follow linkLimit (p.origin cwd) (steps p) = .ok (l, there)) ∧ t.node? l = some n := by
  simp only [findAt, locate_eq, bind, Except.bind] at h
  cases hc : checkPath p with
  | error f => simp [hc] at h
  | ok u =>
    simp only [hc] at h
    cases ht : t.travel follow linkLimit (p.origin cwd) (steps p) with
    | error f => simp [ht] at h
    | ok found =>
      obtain ⟨l₁, there⟩ := found
      simp only [ht] at h
      cases hn : t.node? l₁ with
      | none => simp [hn, throw, throwThe, MonadExceptOf.throw] at h
      | some n₁ =>
        simp only [hn, pure, Except.pure, Except.ok.injEq, Prod.mk.injEq] at h
        obtain ⟨rfl, rfl⟩ := h
        exact ⟨rfl, ⟨there, rfl⟩, hn⟩

/-- A route along the names alone leads where the path leads that spells them. -/
theorem travel_names {n : Node} (h : t.find cwd p = .ok (l, n)) {l₁ : Location}
    {there : Bool} (ht : t.travel true linkLimit (p.origin cwd) p.names =
      .ok (l₁, there)) : l₁ = l := by
  obtain ⟨-, ⟨there', hp⟩, -⟩ := findAt_ok h
  rw [steps_eq] at hp
  split at hp
  · rcases travel_append t linkLimit (p.origin cwd) p.names with
      ⟨l₂, left, h₂, hgo⟩ | hstop
    · rw [hgo true [""] (by simp)] at hp
      rw [h₂] at ht
      have := travel_of_reach (reach_here t true l₂) hp
      cases ht
      exact (congrArg Prod.fst this).symm
    · obtain ⟨f, hf⟩ := hstop true [""] (by simp)
      rw [hf] at hp
      cases hp
  · rw [ht] at hp
    cases hp
    rfl

/-- A directory in a directory is found, where it is found, at its name below the other's place. -/
theorem find_child {n n' : Node} (hd : t.find cwd p = .ok (l, n)) (hs : IsName s)
    (hn : t.node? (s :: l) = some (.directory dm)) (h : t.find cwd (p / s) = .ok (l', n')) :
    l' = s :: l := by
  have hp : p.text ≠ "" := text_ne_of_checkPath (findAt_ok hd).1
  obtain ⟨-, ⟨there, ht⟩, -⟩ := findAt_ok h
  rw [steps_eq, Path.join_endsInSeparator hp hs.whole hs.filled, if_neg Bool.false_ne_true,
    Path.names_join hp hs.whole hs.filled, Path.join_origin hp hs.whole] at ht
  rcases travel_append t linkLimit (p.origin cwd) p.names with
    ⟨l₂, left, h₂, hgo⟩ | hstop
  · rw [hgo true [s] (by simp)] at ht
    have hl := travel_names hd h₂
    subst hl
    exact congrArg Prod.fst (travel_of_reach (reach_name true hs hn) ht)
  · obtain ⟨f, hf⟩ := hstop true [s] (by simp)
    rw [hf] at ht
    cases ht

/-- Following a link at the end changes nothing where there is none. -/
theorem reach_follow (t : FileTree) (xs : List String) (l : Location) :
    t.reach true l xs = t.reach false l xs ∨
      ∃ l' target, t.reach false l xs = .arrived l' ∧ t.node? l' = some (.link target) ∧
        t.reach true l xs = .link l'.tail target [] := by
  induction xs generalizing l with
  | nil => exact .inl rfl
  | cons s rest ih =>
    simp only [reach]
    cases t.node? l with
    | none => exact .inl rfl
    | some n =>
      cases n with
      | directory m =>
        simp only []
        split
        · exact ih l
        · split
          · exact .inl rfl
          · split
            · exact ih l
            · split
              · exact ih l.tail
              · split
                · exact .inl rfl
                · cases hn : t.node? (s :: l) with
                  | none => exact .inl rfl
                  | some n =>
                    cases n with
                    | link target =>
                      cases rest with
                      | nil => exact .inr ⟨s :: l, target, rfl, hn, rfl⟩
                      | cons => exact .inl rfl
                    | directory => exact ih (s :: l)
                    | file => exact ih (s :: l)
                    | device => exact ih (s :: l)
      | _ => exact .inl rfl

theorem travel_follow {n : Node} {there : Bool} (hn : t.node? l' = some n)
    (hl : n.isLink = false) (links : Nat) (l : Location) (xs : List String)
    (h : t.travel false links l xs = .ok (l', there)) :
    t.travel true links l xs = .ok (l', there) := by
  induction links generalizing l xs with
  | zero =>
    rw [travel_eq] at h ⊢
    rcases reach_follow t xs l with he | ⟨l₁, target, hr, ht, -⟩
    · rw [he]
      exact h
    · rw [hr] at h
      cases h
      rw [hn] at ht
      cases ht
      cases hl
  | succ links ih =>
    rw [travel_eq] at h ⊢
    rcases reach_follow t xs l with he | ⟨l₁, target, hr, ht, -⟩
    · rw [he]
      cases hr : t.reach false l xs with
      | link l₁ target rest =>
        rw [hr] at h
        exact ih _ _ h
      | _ =>
        rw [hr] at h
        exact h
    · rw [hr] at h
      cases h
      rw [hn] at ht
      cases ht
      cases hl

theorem find_of_findItself {n : Node} (h : t.findItself cwd p = .ok (l, n))
    (hl : n.isLink = false) : t.find cwd p = .ok (l, n) := by
  obtain ⟨hc, ⟨there, ht⟩, hn⟩ := findAt_ok h
  have := travel_follow hn hl _ _ _ ht
  simp [find, findAt, locate_eq, bind, Except.bind, hc, this, hn, pure, Except.pure]

end Regression.FileTree
