import Regression.Context

namespace Regression.Environment

variable {name : String}

theorem lookup_binding (k v : String) (bs : List (String × String)) :
    ((k, v) :: bs).lookup name = if name = k then some v else bs.lookup name := by
  by_cases h : name = k
  · simp [h]
  · have hne : (name == k) = false := by simp [h]
    rw [List.lookup_cons, hne, if_neg h]

theorem lookup_place (n v : String) (bs : List (String × String)) :
    (place n v bs).lookup name = if name = n then some v else bs.lookup name := by
  induction bs with
  | nil => exact lookup_binding n v []
  | cons b bs ih =>
    obtain ⟨k, w⟩ := b
    rw [place]
    split
    · exact lookup_binding n v _
    · split
      · next hkey =>
        rw [lookup_binding, lookup_binding, ← hkey]
        by_cases h : name = n <;> simp [h]
      · next hkey =>
        rw [lookup_binding, lookup_binding, ih]
        by_cases h : name = k
        · have hne : name ≠ n := fun hn => hkey (hn.symm.trans h)
          simp [h, Ne.symm hkey]
        · simp [h]

theorem get?_set (e : Environment) (n v : String) :
    (e.set n v).get? name = if name = n then some v else e.get? name :=
  lookup_place n v e.bindings

theorem get?_remove (e : Environment) (n : String) :
    (e.remove n).get? name = if name = n then none else e.get? name := by
  simp only [get?, remove]
  induction e.bindings with
  | nil => simp
  | cons b bs ih =>
    obtain ⟨k, w⟩ := b
    by_cases hk : k = n
    · rw [List.filter_cons_of_neg (by simp [hk]), ih, lookup_binding, hk]
      by_cases h : name = n <;> simp [h]
    · rw [List.filter_cons_of_pos (by simp [hk]), lookup_binding, lookup_binding, ih]
      by_cases h : name = k
      · simp [h, hk]
      · simp [h]

/-- The last of several values counts. -/
theorem get?_setAll (e : Environment) (bs : List (String × String)) :
    (e.setAll bs).get? name = (bs.reverse.lookup name).or (e.get? name) := by
  induction bs generalizing e with
  | nil => rfl
  | cons b bs ih =>
    have hmore : e.setAll (b :: bs) = (e.set b.1 b.2).setAll bs := rfl
    rw [hmore, ih, get?_set, List.reverse_cons, List.lookup_append, lookup_binding, Option.or_assoc]
    by_cases h : name = b.1 <;> simp [h]

/-- A name before all that are bound is not bound. -/
theorem lookup_of_lt {bs : List (String × String)} (h : ∀ b ∈ bs, name < b.1) :
    bs.lookup name = none := by
  rw [List.lookup_eq_none_iff]
  intro b hb
  have hne : name ≠ b.1 := fun heq => String.lt_irrefl b.1 (heq ▸ h b hb)
  simpa using hne

theorem first_not_lt {b b' : String × String} {bs bs' : List (String × String)}
    (hlt : ∀ a ∈ bs', b'.1 < a.1)
    (h : ∀ name, (b :: bs).lookup name = (b' :: bs').lookup name) : ¬b.1 < b'.1 := by
  intro hbefore
  have hnone : (b' :: bs').lookup b.1 = none := by
    refine lookup_of_lt fun a ha => ?_
    rcases List.mem_cons.mp ha with rfl | ha
    · exact hbefore
    · exact String.lt_trans hbefore (hlt a ha)
  have hfirst := h b.1
  rw [hnone, lookup_binding, if_pos rfl] at hfirst
  cases hfirst

/-- Ordered bindings are known by what they bind. -/
theorem bindings_ext {bs bs' : List (String × String)} (hbs : bs.Pairwise fun a b => a.1 < b.1)
    (hbs' : bs'.Pairwise fun a b => a.1 < b.1) (h : ∀ name, bs.lookup name = bs'.lookup name) :
    bs = bs' := by
  induction bs generalizing bs' with
  | nil =>
    cases bs' with
    | nil => rfl
    | cons b' bs' =>
      have hfirst := h b'.1
      rw [lookup_binding, if_pos rfl] at hfirst
      cases hfirst
  | cons b bs ih =>
    cases bs' with
    | nil =>
      have hfirst := h b.1
      rw [lookup_binding, if_pos rfl] at hfirst
      cases hfirst
    | cons b' bs' =>
      obtain ⟨hlt, htail⟩ := List.pairwise_cons.mp hbs
      obtain ⟨hlt', htail'⟩ := List.pairwise_cons.mp hbs'
      obtain ⟨k, v⟩ := b
      obtain ⟨k', v'⟩ := b'
      have hkey : k = k' := String.le_antisymm
        (Std.not_lt.mp (first_not_lt hlt fun name => (h name).symm))
        (Std.not_lt.mp (first_not_lt hlt' h))
      subst hkey
      have hvalue : v = v' := by
        have hfirst := h k
        rw [lookup_binding, lookup_binding, if_pos rfl, if_pos rfl] at hfirst
        exact Option.some.inj hfirst
      subst hvalue
      have hrest : ∀ name, bs.lookup name = bs'.lookup name := by
        intro name
        by_cases hname : name = k
        · rw [hname, lookup_of_lt hlt, lookup_of_lt hlt']
        · have hname' := h name
          rwa [lookup_binding, lookup_binding, if_neg hname, if_neg hname] at hname'
      rw [ih htail htail' hrest]

/-- Environments that bind the same are the same. -/
theorem ext_get? {e e' : Environment} (h : ∀ name, e.get? name = e'.get? name) : e = e' :=
  bindings_injective (bindings_ext e.ordered e'.ordered h)

/-- Variables laid over an environment: what they do not bind is as it was. -/
def Overlaid (base : Environment) (vars : List (String × String)) (e : Environment) : Prop :=
  ∀ name, e.get? name = (vars.lookup name).or (base.get? name)

theorem overlaid_setAll (base : Environment) (bs : List (String × String)) :
    base.Overlaid bs.reverse (base.setAll bs) := fun _ => get?_setAll base bs

theorem Overlaid.set {base e : Environment} {vars : List (String × String)}
    (h : base.Overlaid vars e) (n v : String) : base.Overlaid ((n, v) :: vars) (e.set n v) := by
  intro name
  rw [get?_set, lookup_binding, h name]
  by_cases hname : name = n <;> simp [hname]

end Regression.Environment
