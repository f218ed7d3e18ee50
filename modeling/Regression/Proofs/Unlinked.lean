import Regression.Proofs.Spot

namespace Regression.FileTree

variable {t t' : FileTree} {cwd l l' l₀ q : Location} {p : Path} {target : String}

/-- Where the route of a link starts that lies at `q`. -/
def base (q : Location) (target : String) : Location :=
  if Path.isAbsolute ⟨target⟩ then [] else q.tail

/-- More links left change no route that leads somewhere. -/
theorem travel_more {follow : Bool} {links : Nat} {xs : List String} {r : Location × Bool}
    (h : t.travel follow links l xs = .ok r) (more : Nat) :
    t.travel follow (links + more) l xs = .ok r := by
  induction links generalizing l xs with
  | zero =>
    rw [travel_eq] at h ⊢
    cases hr : t.reach follow l xs <;> rw [hr] at h
    · exact h
    · exact h
    · cases h
    · cases h
  | succ links ih =>
    rw [travel_eq] at h
    rw [Nat.add_right_comm, travel_eq]
    cases hr : t.reach follow l xs <;> rw [hr] at h
    · exact h
    · exact h
    · cases h
    · exact ih h

/-- A route leads to one place, however many links are left. -/
theorem travel_once {follow : Bool} {links links' : Nat} {xs : List String}
    {r r' : Location × Bool} (h : t.travel follow links l xs = .ok r)
    (h' : t.travel follow links' l xs = .ok r') : r = r' := by
  have hr := travel_more h links'
  have hr' := travel_more h' links
  rw [Nat.add_comm, hr] at hr'
  exact Except.ok.inj hr'

/-- Routes through a link that leads to the end of routes end there too. -/
theorem travel_dead {follow b b₀ : Bool} {links links₀ : Nat} {rest : List String}
    (h₀ : t.travel true links₀ l (steps ⟨target⟩) = .ok (l₀, b₀)) (hends : Ends (t.node? l₀))
    (h : t.travel follow links l (steps ⟨target⟩ ++ rest) = .ok (l', b)) : rest = [] := by
  cases rest with
  | nil => rfl
  | cons s rest =>
    rcases travel_append t links l (steps ⟨target⟩) with ⟨l₂, left, h₂, hgo⟩ | hstop
    · rw [hgo follow (s :: rest) (List.cons_ne_nil s rest)] at h
      have hl : l₂ = l₀ := congrArg Prod.fst (travel_once h₂ h₀)
      obtain ⟨f, hf⟩ := reach_ends follow s rest (hl ▸ hends)
      rw [travel_eq, hf] at h
      cases h
    · obtain ⟨f, hf⟩ := hstop follow (s :: rest) (List.cons_ne_nil s rest)
      rw [hf] at h
      cases h

section

variable (hsame : ∀ l, l ≠ q → t'.node? l = t.node? l) (hq' : t'.node? q = none)
include hsame hq'

/-- Where a link is taken away only the routes through it change. -/
theorem reach_unlinked (hq : t.node? q = some (.link target)) (xs : List String) (l : Location) :
    Reach.Kept (t.reach true l xs) (t'.reach true l xs) ∨
      ∃ rest, t.reach true l xs = .link q.tail target rest := by
  induction xs generalizing l with
  | nil => exact .inl (.refl _)
  | cons s rest ih =>
    by_cases hl : l = q
    · left
      subst hl
      simp only [reach, hq]
      exact .refused _ _
    · simp only [reach, hsame l hl]
      split
      · split
        · exact ih l
        · split
          · exact .inl (.refl _)
          · split
            · exact ih l
            · split
              · exact ih l.tail
              · split
                · exact .inl (.refl _)
                · by_cases hs : s :: l = q
                  · right
                    subst hs
                    simp [hq]
                  · rw [hsame _ hs]
                    split
                    · exact .inl (.refl _)
                    · exact .inl (.refl _)
                    · exact ih (s :: l)
      · exact .inl (.refl _)
      · exact .inl (.refl _)

theorem travel_unlinked (hq : t.node? q = some (.link target)) {b : Bool} {links : Nat}
    {xs : List String} (h : t.travel true links l xs = .ok (l', b)) :
    (∃ b', t'.travel true links l xs = .ok (l', b')) ∨
      ∃ links' rest, t.travel true links' (base q target) (steps ⟨target⟩ ++ rest) = .ok (l', b) := by
  induction links generalizing l xs with
  | zero =>
    rcases reach_unlinked hsame hq' hq xs l with hkept | ⟨rest, hr⟩
    · left
      rw [travel_eq] at h ⊢
      generalize t.reach true l xs = r at h hkept
      generalize t'.reach true l xs = r' at hkept ⊢
      cases hkept with
      | refused f r => cases h
      | link => cases h
      | _ => cases h; exact ⟨_, rfl⟩
    · rw [travel_eq, hr] at h
      cases h
  | succ links ih =>
    rcases reach_unlinked hsame hq' hq xs l with hkept | ⟨rest, hr⟩
    · rw [travel_eq] at h
      rw [travel_eq]
      generalize t.reach true l xs = r at h hkept
      generalize t'.reach true l xs = r' at hkept ⊢
      cases hkept with
      | refused f r => cases h
      | link => exact ih h
      | _ => cases h; exact .inl ⟨_, rfl⟩
    · rw [travel_eq, hr] at h
      exact .inr ⟨links, rest, h⟩

end

/-- A route to a link goes on, where the link is followed, from the link. -/
theorem travel_followed (hq : t.node? q = some (.link target)) {b b₀ : Bool} {links : Nat}
    {xs : List String} (h : t.travel false links l xs = .ok (q, b))
    (h₀ : t.travel true links l xs = .ok (l₀, b₀)) (hne : l₀ ≠ q) :
    ∃ links', t.travel true links' (base q target) (steps ⟨target⟩) = .ok (l₀, b₀) := by
  induction links generalizing l xs with
  | zero =>
    rw [travel_eq] at h h₀
    rcases reach_follow t xs l with he | ⟨q', target', hr, hq', hr'⟩
    · rw [he] at h₀
      generalize t.reach false l xs = r at h h₀
      cases r <;> cases h <;> cases h₀ <;> exact absurd rfl hne
    · rw [hr'] at h₀
      cases h₀
  | succ links ih =>
    rw [travel_eq] at h h₀
    rcases reach_follow t xs l with he | ⟨q', target', hr, hq', hr'⟩
    · rw [he] at h₀
      generalize t.reach false l xs = r at h h₀
      cases r with
      | link d target' rest => exact ih h h₀
      | refused f => cases h
      | _ => cases h; cases h₀; exact absurd rfl hne
    · rw [hr] at h
      rw [hr'] at h₀
      cases h
      rw [hq] at hq'
      cases hq'
      have hgo : t.travel true links (base q target) (steps ⟨target⟩ ++ []) = .ok (l₀, b₀) := h₀
      rw [List.append_nil] at hgo
      exact ⟨links, hgo⟩

/-- Outcomes of a route that does not follow a link at its end, and of the same route where the link
at `q` is gone. -/
inductive Reach.Stripped (q : Location) (target : String) : Reach → Reach → Prop where
  | refused (f : Fault) (r : Reach) : Stripped q target (.refused f) r
  | absent (l : Location) (r : Reach) : Stripped q target (.absent l) r
  | other (l : Location) (r : Reach) (h : l ≠ q) : Stripped q target (.arrived l) r
  | stays : Stripped q target (.arrived q) (.arrived q)
  | gone : Stripped q target (.arrived q) (.absent q)
  | link (l : Location) (target' : String) (rest : List String) :
    Stripped q target (.link l target' rest) (.link l target' rest)
  | through (rest : List String) (r : Reach) (h : rest ≠ []) :
    Stripped q target (.link q.tail target rest) r

section

variable (hsame : ∀ l, l ≠ q → t'.node? l = t.node? l) (hq' : t'.node? q = none)
include hsame hq'

theorem reach_stripped (hq : t.node? q = some (.link target)) (xs : List String) (l : Location) :
    Reach.Stripped q target (t.reach false l xs) (t'.reach true l xs) := by
  induction xs generalizing l with
  | nil =>
    by_cases hl : l = q
    · subst hl
      exact .stays
    · exact .other l _ hl
  | cons s rest ih =>
    by_cases hl : l = q
    · subst hl
      simp only [reach, hq]
      exact .refused _ _
    · simp only [reach, hsame l hl]
      split
      · split
        · exact ih l
        · split
          · exact .refused _ _
          · split
            · exact ih l
            · split
              · exact ih l.tail
              · split
                · exact .refused _ _
                · by_cases hs : s :: l = q
                  · subst hs
                    simp only [hq, hq']
                    cases rest with
                    | nil => exact .gone
                    | cons s' rest => exact .through _ _ (List.cons_ne_nil s' rest)
                  · rw [hsame _ hs]
                    split
                    · split
                      · exact .absent _ _
                      · exact .refused _ _
                    · cases rest with
                      | nil => exact .other _ _ hs
                      | cons s' rest => exact .link _ _ _
                    · exact ih (s :: l)
      · exact .refused _ _
      · exact .refused _ _

/-- A route that meets no link before `q` leads there as before. -/
theorem travel_direct (hq : t.node? q = some (.link target)) {b : Bool} {links : Nat}
    {xs : List String} (hr : ∀ l' target' rest, t.reach false l xs ≠ .link l' target' rest)
    (h : t.travel false links l xs = .ok (q, b)) : ∃ b', t'.travel true links l xs = .ok (q, b') := by
  have hstrip := reach_stripped hsame hq' hq xs l
  rw [travel_eq] at h
  rw [travel_eq]
  cases hend : t.reach false l xs with
  | arrived l' =>
    rw [hend] at h hstrip
    cases h
    generalize t'.reach true l xs = r' at hstrip
    cases hstrip with
    | other l' r' hne => exact absurd rfl hne
    | stays => exact ⟨_, rfl⟩
    | gone => exact ⟨_, rfl⟩
  | absent l' =>
    rw [hend] at h
    cases h
    rw [reach_absent hend] at hq
    cases hq
  | refused f =>
    rw [hend] at h
    cases h
  | link l' target' rest => exact absurd hend (hr l' target' rest)

/-- Where a link is taken away its own path leads to its place, where nothing is left. -/
theorem travel_stripped (hq : t.node? q = some (.link target)) {b b₀ : Bool} {links links₀ : Nat}
    {xs : List String}
    (h₀ : t.travel true links₀ (base q target) (steps ⟨target⟩) = .ok (l₀, b₀))
    (hends : Ends (t.node? l₀)) (h : t.travel false links l xs = .ok (q, b)) :
    ∃ b', t'.travel true links l xs = .ok (q, b') := by
  induction links generalizing l xs with
  | zero =>
    refine travel_direct hsame hq' hq (fun l' target' rest hr => ?_) h
    rw [travel_eq, hr] at h
    cases h
  | succ links ih =>
    cases hr : t.reach false l xs with
    | link l' target' rest =>
      have hstrip := reach_stripped hsame hq' hq xs l
      rw [travel_eq, hr] at h
      rw [hr] at hstrip
      rw [travel_eq]
      generalize t'.reach true l xs = r' at hstrip
      cases hstrip with
      | link => exact ih h
      | through rest r' hne =>
        have hgo : t.travel false links (base q target) (steps ⟨target⟩ ++ rest) = .ok (q, b) := h
        exact absurd (travel_dead h₀ hends hgo) hne
    | _ => exact travel_direct hsame hq' hq (fun _ _ _ hl => by rw [hr] at hl; cases hl) h

end

/-- Outcomes of a route without the link at `q`, and of the same route with it. -/
inductive Reach.Restored : Reach → Reach → Prop where
  | same (r : Reach) : Restored r r
  | absent (l : Location) (r : Reach) : Restored (.absent l) r
  | refused (f : Fault) (r : Reach) : Restored (.refused f) r

/-- What routes find where a link is taken away they have found before. -/
theorem reach_restored (hsame : ∀ l, l ≠ q → t'.node? l = t.node? l) (hq' : t'.node? q = none)
    (xs : List String) (l : Location) :
    Reach.Restored (t'.reach true l xs) (t.reach true l xs) := by
  induction xs generalizing l with
  | nil => exact .same _
  | cons s rest ih =>
    by_cases hl : l = q
    · subst hl
      simp only [reach, hq']
      exact .refused _ _
    · simp only [reach, hsame l hl]
      split
      · split
        · exact ih l
        · split
          · exact .same _
          · split
            · exact ih l
            · split
              · exact ih l.tail
              · split
                · exact .same _
                · by_cases hs : s :: l = q
                  · subst hs
                    rw [hq']
                    cases rest with
                    | nil => exact .absent _ _
                    | cons s' rest => exact .refused _ _
                  · rw [hsame _ hs]
                    split
                    · exact .same _
                    · exact .same _
                    · exact ih (s :: l)
      · exact .same _
      · exact .same _

theorem travel_restored (hsame : ∀ l, l ≠ q → t'.node? l = t.node? l) (hq' : t'.node? q = none)
    {links : Nat} {xs : List String} (h : t'.travel true links l xs = .ok (l', true)) :
    t.travel true links l xs = .ok (l', true) := by
  induction links generalizing l xs with
  | zero =>
    have hrestored := reach_restored hsame hq' xs l
    rw [travel_eq] at h ⊢
    generalize t'.reach true l xs = r' at h hrestored
    generalize t.reach true l xs = r at hrestored ⊢
    cases hrestored with
    | same => exact h
    | absent => cases h
    | refused => cases h
  | succ links ih =>
    have hrestored := reach_restored hsame hq' xs l
    rw [travel_eq] at h ⊢
    generalize t'.reach true l xs = r' at h hrestored
    generalize t.reach true l xs = r at hrestored ⊢
    cases hrestored with
    | same =>
      cases r' with
      | link d target rest => exact ih h
      | _ => exact h
    | absent => cases h
    | refused => cases h

/-- An edit at `q` that leaves routes as they are: what lies there ends routes before and after, or
is a link to the end of routes that is taken away. Routes to `dead` may get lost. -/
structure Touched (t t' : FileTree) (q dead : Location) : Prop where
  same : ∀ l, l ≠ q → t'.node? l = t.node? l
  after : Ends (t'.node? q)
  before : Ends (t.node? q) ∧ dead = q ∨ ∃ target links b, t.node? q = some (.link target) ∧
    t'.node? q = none ∧ t.travel true links (base q target) (steps ⟨target⟩) = .ok (dead, b) ∧
    Ends (t.node? dead)

namespace Touched

variable {dead : Location} (h : Touched t t' q dead)
include h

theorem travel {b : Bool} {links : Nat} {xs : List String} (hne : l' ≠ dead)
    (ht : t.travel true links l xs = .ok (l', b)) : ∃ b', t'.travel true links l xs = .ok (l', b') := by
  rcases h.before with ⟨hq, -⟩ | ⟨target, links₀, b₀, hq, hgone, h₀, hends⟩
  · exact travel_kept (fun l xs => reach_elsewhere h.same hq h.after true xs l) _ _ _ ht
  · rcases travel_unlinked h.same hgone hq ht with hsome | ⟨links', rest, hthrough⟩
    · exact hsome
    · -- The route goes on from the link, so that it ends where the link leads.
      have hrest := travel_dead h₀ hends hthrough
      subst hrest
      rw [List.append_nil] at hthrough
      exact absurd (congrArg Prod.fst (travel_once hthrough h₀)) hne

theorem travel_back {b : Bool} {links : Nat} {xs : List String} (hn : t'.node? l' ≠ none)
    (ht : t'.travel true links l xs = .ok (l', b)) : ∃ b', t.travel true links l xs = .ok (l', b') := by
  rcases h.before with ⟨hq, -⟩ | ⟨target, links₀, b₀, hq, hgone, h₀, hends⟩
  · refine travel_kept (fun l xs => reach_elsewhere (fun l hl => (h.same l hl).symm) h.after hq true
      xs l) _ _ _ ht
  · cases b with
    | false => exact absurd (travel_absent ht) hn
    | true => exact ⟨true, travel_restored h.same hgone ht⟩

theorem ne_of_directory (hd : t.node? d = some (.directory dm)) : d ≠ q ∧ d ≠ dead := by
  have hends : ∀ l, Ends (t.node? l) → d ≠ l := by
    rintro l hl rfl
    cases (hl _ hd).1
  rcases h.before with ⟨hq, rfl⟩ | ⟨target, links₀, b₀, hq, -, -, hdead⟩
  · exact ⟨hends _ hq, hends _ hq⟩
  · refine ⟨?_, hends _ hdead⟩
    rintro rfl
    rw [hd] at hq
    cases hq

/-- What else a path leads to at the end of routes it leads to after the edit. -/
theorem spot {o : Option Node} (hp : t.spot cwd p = .ok (l, o)) (ho : Ends o) (hne : l ≠ dead) :
    t'.spot cwd p = .ok (l, o) ∧ l ≠ q := by
  have hq : l ≠ q := by
    rcases h.before with ⟨-, rfl⟩ | ⟨target, links₀, b₀, hq, -, -, -⟩
    · exact hne
    · rintro rfl
      rw [(spot_ok.mp hp).2, hq] at ho
      cases (ho _ rfl).2
  refine ⟨?_, hq⟩
  rw [(spot_ok.mp hp).2, ← h.same l hq]
  exact spot_of_travel hp fun there ht => h.travel hne ht

/-- What a path leads to after the edit it has led to before. -/
theorem spot_back {n : Node} (hp : t'.spot cwd p = .ok (l, some n)) :
    t.spot cwd p = .ok (l, t.node? l) := by
  refine spot_of_travel hp fun there ht => h.travel_back ?_ ht
  rw [← (spot_ok.mp hp).2]
  exact Option.some_ne_none n

end Touched

/-- To remove what leads to the end of routes is such an edit. -/
theorem removeFile_touched {o : Option Node} (ht : t.Sound) (h : t.removeFile cwd p = .ok t')
    (hp : t.spot cwd p = .ok (l₀, o)) (hends : Ends o) :
    ∃ q n, t.findItself cwd p = .ok (q, n) ∧ t'.node? q = none ∧ Touched t t' q l₀ := by
  obtain ⟨q, n, hfind, hn, rfl⟩ := removeFile_ok h
  obtain ⟨hc, ⟨there, hitself⟩, hq⟩ := findAt_ok hfind
  obtain ⟨⟨there₀, hl₀⟩, ho⟩ := spot_ok.mp hp
  have hgone : (t.prune q).node? q = none := by rw [node?_prune, if_pos List.suffix_rfl]
  have hafter : Ends ((t.prune q).node? q) := by
    rw [hgone]
    intro n' hn'
    cases hn'
  refine ⟨q, n, hfind, hgone, fun l hl => ht.node?_pruned hq hn hl, hafter, ?_⟩
  cases hlink : n.isLink with
  | false =>
    have hspot := spot_of_find (find_of_findItself hfind hlink)
    rw [hp] at hspot
    cases hspot
    exact .inl ⟨hq.symm ▸ hends, rfl⟩
  | true =>
    obtain ⟨target, rfl⟩ : ∃ target, n = .link target := by
      cases n with
      | link target => exact ⟨target, rfl⟩
      | _ => cases hlink
    have hne₀ : l₀ ≠ q := by
      rintro rfl
      rw [hq] at ho
      exact absurd (hends _ ho).2 (by simp [Node.isLink])
    rw [locate_eq, hc] at hl₀
    obtain ⟨links₀, h₀⟩ := travel_followed hq hitself hl₀ hne₀
    exact .inr ⟨target, links₀, there₀, hq, hgone, h₀, ho ▸ hends⟩

/-- Taking away what a path names, a link itself where it names one, leaves nothing at the end of
that path and changes nothing at the end of any other. -/
theorem spot_removeFile {o : Option Node} (ht : t.Sound) (h : t.removeFile cwd p = .ok t')
    (hp : t.spot cwd p = .ok (l₀, o)) (hends : Ends o) :
    ∃ l, t'.spot cwd p = .ok (l, none) ∧
      ∀ p' l' o', t.spot cwd p' = .ok (l', o') → Ends o' → l' ≠ l₀ →
        t'.spot cwd p' = .ok (l', o') ∧ l' ≠ l := by
  obtain ⟨q, n, hfind, hgone, htouched⟩ := removeFile_touched ht h hp hends
  refine ⟨q, ?_, fun p' l' o' hp' ho' hne => htouched.spot hp' ho' hne⟩
  rw [← hgone]
  rcases htouched.before with ⟨hq, rfl⟩ | ⟨target, links₀, b₀, hq, -, h₀, hdead⟩
  · exact spot_elsewhere htouched.same hq htouched.after hp
  · obtain ⟨-, ⟨there, hitself⟩, -⟩ := findAt_ok hfind
    exact spot_of_travel hp fun _ _ =>
      travel_stripped htouched.same hgone hq h₀ hdead hitself

end Regression.FileTree
