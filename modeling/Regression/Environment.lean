namespace Regression

/-- Variables in the order of their names, each name once. Equal environments bind the same names
to the same values. -/
structure Environment where
  bindings : List (String × String)
  ordered : bindings.Pairwise (fun a b => a.1 < b.1)

namespace Environment

theorem bindings_injective {e f : Environment} (h : e.bindings = f.bindings) : e = f := by
  cases e
  cases f
  cases h
  rfl

instance : DecidableEq Environment := fun e f =>
  if h : e.bindings = f.bindings then .isTrue (bindings_injective h)
  else .isFalse fun he => h (he ▸ rfl)

def empty : Environment := ⟨[], .nil⟩

instance : Inhabited Environment := ⟨empty⟩

def get? (e : Environment) (name : String) : Option String :=
  e.bindings.lookup name

/-- The value of a variable that is bound to more than the empty text. -/
def getFilled? (e : Environment) (name : String) : Option String :=
  (e.get? name).filter (· != "")

def contains (e : Environment) (name : String) : Bool :=
  (e.get? name).isSome

def place (name value : String) : List (String × String) → List (String × String)
  | [] => [(name, value)]
  | (n, v) :: rest =>
    if name < n then (name, value) :: (n, v) :: rest
    else if name = n then (name, value) :: rest
    else (n, v) :: place name value rest

theorem name_of_mem_place {name value : String} {bs : List (String × String)} {b : String × String}
    (h : b ∈ place name value bs) : b = (name, value) ∨ b ∈ bs := by
  induction bs with
  | nil => simpa [place] using h
  | cons c cs ih =>
    obtain ⟨n, v⟩ := c
    simp only [place] at h
    split at h
    · simpa using h
    · split at h
      · rcases List.mem_cons.mp h with h | h
        · exact .inl h
        · exact .inr (List.mem_cons_of_mem _ h)
      · rcases List.mem_cons.mp h with h | h
        · exact .inr (h ▸ List.mem_cons_self)
        · exact (ih h).imp_right (List.mem_cons_of_mem _)

theorem ordered_place {name value : String} {bs : List (String × String)}
    (h : bs.Pairwise (fun a b => a.1 < b.1)) :
    (place name value bs).Pairwise (fun a b => a.1 < b.1) := by
  induction bs with
  | nil => simp [place]
  | cons c cs ih =>
    obtain ⟨n, v⟩ := c
    have hc := List.pairwise_cons.mp h
    simp only [place]
    split
    · next hlt =>
      refine List.pairwise_cons.mpr ⟨fun b hb => ?_, h⟩
      rcases List.mem_cons.mp hb with rfl | hb
      · exact hlt
      · exact String.lt_trans hlt (hc.1 b hb)
    · next hge =>
      split
      · next heq =>
        subst heq
        exact List.pairwise_cons.mpr ⟨hc.1, hc.2⟩
      · next hne =>
        refine List.pairwise_cons.mpr ⟨fun b hb => ?_, ih hc.2⟩
        rcases name_of_mem_place hb with rfl | hb
        · exact Decidable.byContradiction fun hn =>
            hne (String.le_antisymm (Std.not_lt.mp hn) (Std.not_lt.mp hge))
        · exact hc.1 b hb

def set (e : Environment) (name value : String) : Environment :=
  ⟨place name value e.bindings, ordered_place e.ordered⟩

def remove (e : Environment) (name : String) : Environment :=
  ⟨e.bindings.filter (·.1 != name), e.ordered.filter _⟩

/-- Later bindings of a name win. -/
def setAll (e : Environment) (bs : List (String × String)) : Environment :=
  bs.foldl (fun e b => e.set b.1 b.2) e

def ofList (bs : List (String × String)) : Environment :=
  empty.setAll bs

def isNameChar (c : Char) : Bool :=
  ('a' ≤ c && c ≤ 'z') || ('A' ≤ c && c ≤ 'Z') || ('0' ≤ c && c ≤ '9') || c = '_'

/-- A reference as it stands after its `$`: its name, and how it is written there. -/
structure Reference where
  name : List Char
  written : List Char
  rest : List Char

/-- A name stands in braces or runs as far as letters, digits and underscores do. A brace that is
never closed is no reference. -/
def reference (cs : List Char) : Reference :=
  match cs with
  | '\x7b' :: inner =>
    match inner.dropWhile (· ≠ '\x7d') with
    | close :: rest =>
      let name := inner.takeWhile (· ≠ '\x7d')
      ⟨name, '\x7b' :: (name ++ [close]), rest⟩
    | [] => ⟨[], [], cs⟩
  | _ => ⟨cs.takeWhile isNameChar, cs.takeWhile isNameChar, cs.dropWhile isNameChar⟩

def valueOf (e : Environment) (name : List Char) : Option (List Char) :=
  if name.isEmpty then none else (e.get? (String.ofList name)).map String.toList

theorem length_dropWhile_le (p : Char → Bool) (cs : List Char) :
    (cs.dropWhile p).length ≤ cs.length := by
  have := congrArg List.length (List.takeWhile_append_dropWhile (p := p) (l := cs))
  simp only [List.length_append] at this
  omega

theorem rest_le (cs : List Char) : (reference cs).rest.length ≤ cs.length := by
  unfold reference
  split
  · next inner =>
    split
    · next close rest heq =>
      have := length_dropWhile_le (· ≠ '\x7d') inner
      rw [heq] at this
      simp only [List.length_cons] at this ⊢
      omega
    · simp
  · exact length_dropWhile_le _ _

/-- Every reference to a bound name becomes its value, which is not read again; all else stays. -/
def expandList (e : Environment) : List Char → List Char
  | [] => []
  | c :: cs =>
    if c = '$' then
      match e.valueOf (reference cs).name with
      | some value => value ++ expandList e (reference cs).rest
      | none => '$' :: ((reference cs).written ++ expandList e (reference cs).rest)
    else c :: expandList e cs
termination_by cs => cs.length
decreasing_by
  all_goals simp only [List.length_cons]
  · exact Nat.lt_succ_of_le (rest_le cs)
  · exact Nat.lt_succ_of_le (rest_le cs)
  · exact Nat.lt_succ_self _

def expand (e : Environment) (s : String) : String :=
  String.ofList (e.expandList s.toList)

end Environment

end Regression
