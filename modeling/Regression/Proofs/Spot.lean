import Regression.Proofs.Sound

namespace Regression.FileTree

open Text (Bytes)

variable {t u : FileTree} {cwd l l' q : Location} {p : Path}

/-- What a path leads to, links followed: a place, and what lies there. -/
def spot (t : FileTree) (cwd : Location) (p : Path) : Except Fault (Location × Option Node) :=
  (t.locate true cwd p).map fun found => (found.1, t.node? found.1)

theorem spot_ok {o : Option Node} : t.spot cwd p = .ok (l, o) ↔
    (∃ there, t.locate true cwd p = .ok (l, there)) ∧ o = t.node? l := by
  unfold spot
  cases t.locate true cwd p with
  | error f => simp [Except.map]
  | ok found =>
    obtain ⟨l', there⟩ := found
    simp only [Except.map, Except.ok.injEq, Prod.mk.injEq]
    constructor
    · intro h
      obtain ⟨rfl, rfl⟩ := h
      exact ⟨⟨there, rfl, rfl⟩, rfl⟩
    · intro h
      obtain ⟨⟨there', rfl, rfl⟩, rfl⟩ := h
      exact ⟨rfl, rfl⟩

theorem find_of_spot {n : Node} (h : t.spot cwd p = .ok (l, some n)) : t.find cwd p = .ok (l, n) := by
  obtain ⟨⟨there, hl⟩, hn⟩ := spot_ok.mp h
  simp [find, findAt, hl, ← hn, bind, Except.bind, pure, Except.pure]

theorem spot_of_find {n : Node} (h : t.find cwd p = .ok (l, n)) : t.spot cwd p = .ok (l, some n) := by
  obtain ⟨hc, ⟨there, ht⟩, hn⟩ := findAt_ok h
  refine spot_ok.mpr ⟨⟨there, ?_⟩, hn.symm⟩
  rw [locate_eq, hc]
  exact ht

theorem find_of_spot_none (h : t.spot cwd p = .ok (l, none)) : t.find cwd p = .error .notFound := by
  obtain ⟨⟨there, hl⟩, hn⟩ := spot_ok.mp h
  simp [find, findAt, hl, ← hn, bind, Except.bind, throw, throwThe, MonadExceptOf.throw]

/-- What no route goes on from. -/
def Ends (o : Option Node) : Prop :=
  ∀ n, o = some n → n.isDirectory = false ∧ n.isLink = false

/-- Two outcomes of a route of which the second leads wherever the first does. -/
inductive Reach.Kept : Reach → Reach → Prop where
  | refused (f : Fault) (r : Reach) : Kept (.refused f) r
  | link (l : Location) (target : String) (rest : List String) :
    Kept (.link l target rest) (.link l target rest)
  | arrived (l : Location) : Kept (.arrived l) (.arrived l)
  | absent (l : Location) : Kept (.absent l) (.absent l)
  | gone (l : Location) : Kept (.arrived l) (.absent l)
  | come (l : Location) : Kept (.absent l) (.arrived l)

theorem Reach.Kept.refl (r : Reach) : Reach.Kept r r := by
  cases r <;> constructor

/-- No route goes on from such a place. -/
theorem reach_ends (follow : Bool) (s : String) (rest : List String) (hq : Ends (t.node? q)) :
    ∃ f, t.reach follow q (s :: rest) = .refused f := by
  simp only [reach]
  split
  · next m hm => cases (hq _ hm).1
  · exact ⟨_, rfl⟩
  · exact ⟨_, rfl⟩

/-- The last step to such a place arrives there or finds nothing there. -/
theorem last_ends {follow : Bool} (l : Location) (hq : Ends (t.node? q)) :
    let last : Reach :=
      match t.node? q with
      | none => if ([] : List String).isEmpty then .absent q else .refused .notFound
      | some (.link target) =>
        if ([] : List String).isEmpty && !follow then .arrived q else .link l target []
      | some _ => t.reach follow q []
    last = .arrived q ∨ last = .absent q := by
  cases hn : t.node? q with
  | none => exact .inr rfl
  | some n =>
    cases n with
    | link target => cases (hq _ hn).2
    | _ => exact .inl rfl

/-- A step through such a place fails. -/
theorem through_ends {follow : Bool} {s : String} {rest : List String} (l : Location)
    (hq : Ends (t.node? q)) (r : Reach) :
    Reach.Kept
      (match t.node? q with
      | none => if (s :: rest).isEmpty then .absent q else .refused .notFound
      | some (.link target) =>
        if (s :: rest).isEmpty && !follow then .arrived q else .link l target (s :: rest)
      | some _ => t.reach follow q (s :: rest)) r := by
  cases hn : t.node? q with
  | none => exact .refused _ r
  | some n =>
    cases n with
    | link target => cases (hq _ hn).2
    | _ =>
      obtain ⟨f, hf⟩ := reach_ends follow s rest hq
      simp only
      rw [hf]
      exact .refused f r

theorem Reach.Kept.of_place {r r' : Reach} (h : r = .arrived q ∨ r = .absent q)
    (h' : r' = .arrived q ∨ r' = .absent q) : Reach.Kept r r' := by
  rcases h with rfl | rfl <;> rcases h' with rfl | rfl <;> constructor

/-- A change at the end of routes changes no route. -/
theorem reach_elsewhere (hsame : ∀ l, l ≠ q → u.node? l = t.node? l) (hq : Ends (t.node? q))
    (hq' : Ends (u.node? q)) (follow : Bool) (xs : List String) (l : Location) :
    Reach.Kept (t.reach follow l xs) (u.reach follow l xs) := by
  induction xs generalizing l with
  | nil => exact .refl _
  | cons s rest ih =>
    by_cases hl : l = q
    · obtain ⟨f, hf⟩ := reach_ends follow s rest hq
      rw [hl, hf]
      exact .refused f _
    · simp only [reach, hsame l hl]
      split
      · split
        · exact ih l
        · split
          · exact .refl _
          · split
            · exact ih l
            · split
              · exact ih l.tail
              · split
                · exact .refl _
                · by_cases hs : s :: l = q
                  · rw [hs]
                    cases rest with
                    | nil => exact .of_place (last_ends l hq) (last_ends l hq')
                    | cons s' rest => exact through_ends l hq _
                  · rw [hsame _ hs]
                    split
                    · exact .refl _
                    · exact .refl _
                    · exact ih (s :: l)
      · exact .refl _
      · exact .refl _

theorem travel_kept {follow : Bool} {b : Bool}
    (hreach : ∀ l xs, Reach.Kept (t.reach follow l xs) (u.reach follow l xs)) (links : Nat)
    (l : Location) (xs : List String) (h : t.travel follow links l xs = .ok (l', b)) :
    ∃ b', u.travel follow links l xs = .ok (l', b') := by
  induction links generalizing l xs with
  | zero =>
    have hkept := hreach l xs
    rw [travel_eq] at h ⊢
    generalize t.reach follow l xs = r at h hkept
    generalize u.reach follow l xs = r' at hkept ⊢
    cases hkept with
    | refused f r => cases h
    | link => cases h
    | _ => cases h; exact ⟨_, rfl⟩
  | succ links ih =>
    have hkept := hreach l xs
    rw [travel_eq] at h ⊢
    generalize t.reach follow l xs = r at h hkept
    generalize u.reach follow l xs = r' at hkept ⊢
    cases hkept with
    | refused f r => cases h
    | link => exact ih _ _ h
    | _ => cases h; exact ⟨_, rfl⟩

theorem spot_of_travel {o : Option Node} (h : t.spot cwd p = .ok (l, o))
    (htravel : ∀ there, t.travel true linkLimit (p.origin cwd) (steps p) = .ok (l, there) →
      ∃ there', u.travel true linkLimit (p.origin cwd) (steps p) = .ok (l', there')) :
    u.spot cwd p = .ok (l', u.node? l') := by
  obtain ⟨⟨there, hl⟩, -⟩ := spot_ok.mp h
  rw [locate_eq] at hl
  obtain ⟨u, hc, hl⟩ := bind_ok hl
  obtain ⟨there', hl'⟩ := htravel there hl
  refine spot_ok.mpr ⟨⟨there', ?_⟩, rfl⟩
  rw [locate_eq, hc]
  exact hl'

/-- After a change at the end of routes every path leads where it led. -/
theorem spot_elsewhere {o : Option Node} (hsame : ∀ l, l ≠ q → u.node? l = t.node? l)
    (hq : Ends (t.node? q)) (hq' : Ends (u.node? q)) (h : t.spot cwd p = .ok (l, o)) :
    u.spot cwd p = .ok (l, u.node? l) :=
  spot_of_travel h fun _ ht =>
    travel_kept (fun l xs => reach_elsewhere hsame hq hq' true xs l) _ _ _ ht

theorem spot_put {n : Node} {o : Option Node} (hq : Ends (t.node? q)) (hn : Ends (some n))
    (h : t.spot cwd p = .ok (l, o)) :
    (t.put q n).spot cwd p = .ok (l, if l = q then some n else o) := by
  have hnew := spot_elsewhere (u := t.put q n) (fun l hl => by rw [node?_put, if_neg hl]) hq
    (by rw [node?_put, if_pos rfl]; exact hn) h
  rw [hnew, node?_put, ← (spot_ok.mp h).2]

theorem spot_mapContents {o : Option Node} (serial : Nat) (f : Bytes → Bytes)
    (h : t.spot cwd p = .ok (l, o)) :
    (t.mapContents serial f).spot cwd p = .ok (l, o.map (Node.rewrite serial f)) := by
  obtain ⟨⟨there, hl⟩, ho⟩ := spot_ok.mp h
  refine spot_ok.mpr ⟨⟨there, ?_⟩, by rw [node?_mapContents, ho]⟩
  rw [← locate_outline, outline_mapContents, locate_outline, hl]

/-- What is read under the name of a regular file is what it holds. -/
theorem read_file {serial : Nat} {m : Mode} {c bytes : Bytes}
    (hfile : t.spot cwd p = .ok (l, some (.file serial m c))) (hok : t.read cwd p = .ok bytes) :
    bytes = c := by
  obtain ⟨⟨l', n⟩, hfind, hok⟩ := bind_ok hok
  rw [find_of_spot hfile] at hfind
  cases hfind
  simp only at hok
  split at hok
  · cases hok
    rfl
  · cases hok

end Regression.FileTree
