import Mathlib.Data.List.TakeWhile
import Regression.Proofs.Launching

namespace Regression.Environment

/-- What a pass over a text comes to: a character that stands for itself, or a reference as it is
written after its `$`. -/
inductive Piece where
  | plain (c : Char)
  | reference (name written : List Char)

namespace Piece

def written : Piece → List Char
  | plain c => [c]
  | reference _ written => '$' :: written

def expand (e : Environment) : Piece → List Char
  | plain c => [c]
  | reference name written => (e.valueOf name).getD ('$' :: written)

/-- The name that a piece refers to. An empty one is no name. -/
def name? : Piece → Option String
  | plain _ => none
  | reference name _ => if name.isEmpty then none else some (String.ofList name)

end Piece

/-- The pieces of a text, which depend on no environment. -/
def pieces : List Char → List Piece
  | [] => []
  | c :: cs =>
    if c = '$' then
      .reference (reference cs).name (reference cs).written :: pieces (reference cs).rest
    else .plain c :: pieces cs
termination_by cs => cs.length
decreasing_by
  all_goals simp only [List.length_cons]
  · exact Nat.lt_succ_of_le (rest_le cs)
  · exact Nat.lt_succ_self _

variable {e : Environment} {cs before name after : List Char}

@[simp] theorem pieces_nil : pieces [] = [] := by rw [pieces]

theorem pieces_dollar (cs : List Char) : pieces ('$' :: cs) =
    .reference (reference cs).name (reference cs).written :: pieces (reference cs).rest := by
  rw [pieces, if_pos rfl]

theorem pieces_plain {c : Char} (h : c ≠ '$') : pieces (c :: cs) = .plain c :: pieces cs := by
  rw [pieces, if_neg h]

/-- What stands before the first reference is passed over. -/
theorem pieces_append (h : '$' ∉ before) (cs : List Char) :
    pieces (before ++ cs) = before.map .plain ++ pieces cs := by
  induction before with
  | nil => rfl
  | cons c before ih =>
    obtain ⟨hc, hrest⟩ := not_or.mp (mt List.mem_cons.mpr h)
    rw [List.cons_append, pieces_plain (Ne.symm hc), ih hrest]
    rfl

theorem written_reference (cs : List Char) : (reference cs).written ++ (reference cs).rest = cs := by
  unfold reference
  split
  · next inner =>
    have hsplit := List.takeWhile_append_dropWhile (p := fun c => decide (c ≠ '\x7d')) (l := inner)
    split
    · next close rest heq =>
      rw [heq] at hsplit
      simpa using hsplit
    · rfl
  · exact List.takeWhile_append_dropWhile

/-- The pieces of a text spell it. -/
theorem written_pieces (cs : List Char) : (pieces cs).flatMap Piece.written = cs := by
  induction cs using pieces.induct with
  | case1 => rw [pieces_nil, List.flatMap_nil]
  | case2 cs ih =>
    rw [pieces_dollar, List.flatMap_cons, ih, Piece.written, List.cons_append, written_reference]
  | case3 c cs hc ih =>
    rw [pieces_plain hc, List.flatMap_cons, ih]
    rfl

/-- An expansion goes over the pieces of the text, not over the values that it puts in. -/
theorem expandList_eq (e : Environment) (cs : List Char) :
    e.expandList cs = (pieces cs).flatMap (Piece.expand e) := by
  induction cs using pieces.induct with
  | case1 => rw [expandList, pieces_nil, List.flatMap_nil]
  | case2 cs ih =>
    rw [expandList, if_pos rfl, pieces_dollar, List.flatMap_cons, ih, Piece.expand]
    cases e.valueOf (reference cs).name <;> rfl
  | case3 c cs hc ih =>
    rw [expandList, if_neg hc, pieces_plain hc, List.flatMap_cons, ih]
    rfl

theorem references_eq (cs : List Char) : references cs = (pieces cs).filterMap Piece.name? := by
  induction cs using pieces.induct with
  | case1 => rw [references, pieces_nil, List.filterMap_nil]
  | case2 cs ih =>
    rw [references_dollar, pieces_dollar, List.filterMap_cons, ih, Piece.name?]
    split <;> rfl
  | case3 c cs hc ih =>
    rw [references, if_neg hc, pieces_plain hc, List.filterMap_cons, ih]
    rfl

theorem expandList_append (h : '$' ∉ before) (cs : List Char) :
    e.expandList (before ++ cs) = before ++ e.expandList cs := by
  have hbefore : (before.map Piece.plain).flatMap (Piece.expand e) = before := by
    rw [List.flatMap_map]
    exact List.flatMap_singleton' before
  rw [expandList_eq, expandList_eq, pieces_append h, List.flatMap_append, hbefore]

theorem expandList_dollar (e : Environment) (cs : List Char) : e.expandList ('$' :: cs) =
    (e.valueOf (reference cs).name).getD ('$' :: (reference cs).written) ++
      e.expandList (reference cs).rest := by
  rw [expandList_eq, expandList_eq, pieces_dollar, List.flatMap_cons]
  rfl

/-- A piece that refers to no bound name stays as it is written. -/
theorem Piece.expand_unbound {piece : Piece} (h : ∀ name ∈ piece.name?, e.get? name = none) :
    piece.expand e = piece.written := by
  cases piece with
  | plain c => rfl
  | reference name written =>
    have hvalue : e.valueOf name = none := by
      unfold valueOf
      split
      · rfl
      · next hname =>
        have hfree := h (String.ofList name) (by simp [name?, hname])
        rw [hfree]
        rfl
    rw [expand, hvalue]
    rfl

theorem reference_braced (h : '\x7d' ∉ name) (after : List Char) :
    reference ('\x7b' :: (name ++ '\x7d' :: after)) =
      ⟨name, '\x7b' :: (name ++ ['\x7d']), after⟩ := by
  have hname : ∀ c ∈ name, decide (c ≠ '\x7d') = true := by
    intro c hc
    simp only [decide_eq_true_eq]
    rintro rfl
    exact h hc
  have hdrop : (name ++ '\x7d' :: after).dropWhile (fun c => decide (c ≠ '\x7d')) =
      '\x7d' :: after := by
    rw [List.dropWhile_append_of_pos hname]
    rfl
  have htake : (name ++ '\x7d' :: after).takeWhile (fun c => decide (c ≠ '\x7d')) = name := by
    rw [List.takeWhile_append_of_pos hname]
    simp
  simp only [reference, hdrop, htake]

/-- A brace that is never closed opens no reference. -/
theorem reference_unclosed (h : '\x7d' ∉ after) :
    reference ('\x7b' :: after) = ⟨[], [], '\x7b' :: after⟩ := by
  have hdrop : after.dropWhile (fun c => decide (c ≠ '\x7d')) = [] := by
    rw [List.dropWhile_eq_nil_iff]
    intro c hc
    simp only [decide_eq_true_eq]
    rintro rfl
    exact h hc
  simp only [reference, hdrop]

theorem reference_named (hname : ∀ c ∈ name, isNameChar c = true)
    (hafter : ∀ c ∈ after.head?, isNameChar c = false)
    (hbrace : name = [] → after.head? ≠ some '\x7b') :
    reference (name ++ after) = ⟨name, name, after⟩ := by
  have htake : (name ++ after).takeWhile isNameChar = name := by
    rw [List.takeWhile_append_of_pos hname]
    cases after with
    | nil => simp
    | cons c after => simp [hafter c rfl]
  have hdrop : (name ++ after).dropWhile isNameChar = after := by
    rw [List.dropWhile_append_of_pos hname]
    cases after with
    | nil => rfl
    | cons c after => simp [hafter c rfl]
  unfold reference
  split
  · next inner heq =>
    cases name with
    | nil => exact absurd (by rw [List.nil_append] at heq; rw [heq]; rfl) (hbrace rfl)
    | cons c name =>
      obtain ⟨rfl, -⟩ := List.cons.inj heq
      exact absurd (hname _ List.mem_cons_self) (by decide)
  · rw [htake, hdrop]

/-- A name is made of ASCII letters, digits and underscores. -/
theorem isNameChar_eq (c : Char) : isNameChar c = (c.isAlphanum || c == '_') := by
  have halpha : c.isAlpha = (c.isUpper || c.isLower) := rfl
  have hupper : c.isUpper = decide (c.val ≥ 'A'.val ∧ c.val ≤ 'Z'.val) := rfl
  have hlower : c.isLower = (decide (c.val ≥ 'a'.val) && decide (c.val ≤ 'z'.val)) := rfl
  rw [Bool.eq_iff_iff]
  simp only [isNameChar, Char.isAlphanum, halpha, hupper, hlower, Char.isDigit, Char.le_def,
    Bool.or_eq_true, Bool.and_eq_true, decide_eq_true_eq, beq_iff_eq, ge_iff_le]
  exact or_congr_left (or_congr_left or_comm)

/-- What a reference to a name, written so, stands for. -/
def standsFor (e : Environment) (name written : String) : String :=
  if name = "" then written else (e.get? name).getD written

theorem getD_valueOf (e : Environment) (name written : String) :
    (e.valueOf name.toList).getD written.toList = (e.standsFor name written).toList := by
  simp only [valueOf, standsFor, List.isEmpty_iff, String.toList_eq_nil_iff, String.ofList_toList]
  split
  · rfl
  · cases e.get? name <;> rfl

/-- An expansion as one pass of substitution from left to right. -/
structure Expands (e : Environment) : Prop where
  plain : ∀ s, '$' ∉ s.toList → e.expand s = s
  braced : ∀ p n t, '$' ∉ p.toList → '\x7d' ∉ n.toList →
    e.expand (p ++ "$\x7b" ++ n ++ "\x7d" ++ t) =
      p ++ e.standsFor n ("$\x7b" ++ n ++ "\x7d") ++ e.expand t
  unclosed : ∀ p r, '$' ∉ p.toList → '\x7d' ∉ r.toList →
    e.expand (p ++ "$\x7b" ++ r) = p ++ "$" ++ e.expand ("\x7b" ++ r)
  /-- Without a brace a name runs as far as letters, digits and underscores do. -/
  named : ∀ p n t, '$' ∉ p.toList → (∀ c ∈ n.toList, c.isAlphanum || c == '_') →
    (∀ c ∈ t.toList.head?, ¬(c.isAlphanum || c == '_')) →
    (n = "" → t.toList.head? ≠ some '\x7b') →
    e.expand (p ++ "$" ++ n ++ t) = p ++ e.standsFor n ("$" ++ n) ++ e.expand t
  /-- The text alone decides which pieces it has, so that no value is read again. -/
  once : ∀ s, (e.expand s).toList = (pieces s.toList).flatMap (Piece.expand e) ∧
    (pieces s.toList).flatMap Piece.written = s.toList
  unbound : ∀ s, (∀ name ∈ references s.toList, e.get? name = none) → e.expand s = s

theorem expand_toList (e : Environment) (s : String) :
    (e.expand s).toList = e.expandList s.toList := by
  rw [expand, String.toList_ofList]

/-- Expansion is one pass from left to right, in which each reference to a bound name becomes the value,
which is not read again, and all else stays as it is written. -/
theorem expand_passes (e : Environment) : e.Expands where
  plain := by
    intro s hs
    have hnil : e.expandList [] = [] := by rw [expandList]
    have hlist := expandList_append (e := e) hs []
    rw [hnil, List.append_nil] at hlist
    exact String.toList_inj.mp ((e.expand_toList s).trans hlist)
  braced := by
    intro p n t hp hn
    apply String.toList_inj.mp
    have hspelt : (p ++ "$\x7b" ++ n ++ "\x7d" ++ t).toList =
        p.toList ++ '$' :: '\x7b' :: (n.toList ++ '\x7d' :: t.toList) := by simp
    have hwritten : ("$\x7b" ++ n ++ "\x7d").toList = '$' :: '\x7b' :: (n.toList ++ ['\x7d']) := by
      simp
    rw [expand_toList, hspelt, expandList_append hp, expandList_dollar, reference_braced hn,
      ← hwritten, getD_valueOf, ← expand_toList]
    simp
  unclosed := by
    intro p r hp hr
    apply String.toList_inj.mp
    have hspelt : (p ++ "$\x7b" ++ r).toList = p.toList ++ '$' :: '\x7b' :: r.toList := by simp
    have hrest : ("\x7b" ++ r).toList = '\x7b' :: r.toList := by simp
    rw [expand_toList, hspelt, expandList_append hp, expandList_dollar, reference_unclosed hr,
      ← hrest, ← expand_toList]
    simp [valueOf]
  named := by
    intro p n t hp hn ht hbrace
    apply String.toList_inj.mp
    have hspelt : (p ++ "$" ++ n ++ t).toList = p.toList ++ '$' :: (n.toList ++ t.toList) := by simp
    have hwritten : ("$" ++ n).toList = '$' :: n.toList := by simp
    have hname : ∀ c ∈ n.toList, isNameChar c = true := by
      intro c hc
      rw [isNameChar_eq]
      exact hn c hc
    have hafter : ∀ c ∈ t.toList.head?, isNameChar c = false := by
      intro c hc
      rw [isNameChar_eq]
      simpa using ht c hc
    have href := reference_named hname hafter fun h => hbrace (String.toList_eq_nil_iff.mp h)
    rw [expand_toList, hspelt, expandList_append hp, expandList_dollar, href, ← hwritten,
      getD_valueOf, ← expand_toList]
    simp
  once := by
    intro s
    rw [expand_toList, expandList_eq]
    exact ⟨rfl, written_pieces _⟩
  unbound := by
    intro s hfree
    apply String.toList_inj.mp
    have hsame : ∀ piece ∈ pieces s.toList, piece.expand e = piece.written := by
      intro piece hpiece
      refine Piece.expand_unbound fun name hname => hfree name ?_
      rw [references_eq]
      exact List.mem_filterMap.mpr ⟨piece, hpiece, hname⟩
    rw [expand_toList, expandList_eq, List.flatMap_congr hsame, written_pieces]

end Regression.Environment
