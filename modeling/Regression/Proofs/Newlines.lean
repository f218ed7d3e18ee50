import Mathlib.Algebra.Group.Nat.Defs
import Regression.Proofs.Encoding
import Regression.Proofs.Lines

namespace Regression.Text

/-- A begun character comes after the first 128, whatever bytes it goes on with. -/
structure Begun.Long (s : Begun) : Prop where
  low : 0x80 ≤ s.low.toNat
  value : 0x80 ≤ (s.value * 64 + (s.low.toNat - 0x80)) * 64 ^ (s.left - 1)

/-- Past the decision table there are no characters. -/
theorem first_past {b : UInt8} (h : 0xF5 ≤ b.toNat) : first b = .piece .broken := by
  have hlt : ∀ {c : UInt8}, c.toNat < 0xF5 → ¬b < c := by
    intro c hc
    rw [UInt8.lt_iff_toNat_lt]
    omega
  have hne : ∀ {c : UInt8}, c.toNat < 0xF5 → ¬b = c := by
    rintro c hc rfl
    omega
  simp [first, hlt, hne]

/-- The bytes that begin a longer character, by their numbers. -/
theorem first_begun {b : UInt8} {s : Begun} (h : first b = .begun s) :
    0xC2 ≤ b.toNat ∧ b.toNat < 0xF5 := by
  constructor
  · unfold first at h
    split at h
    · contradiction
    · split at h
      · contradiction
      · next hlow =>
        rw [UInt8.lt_iff_toNat_lt, Nat.not_lt] at hlow
        exact hlow
  · refine Nat.lt_of_not_le fun hpast => ?_
    rw [first_past hpast] at h
    contradiction

theorem first_long {b : UInt8} {s : Begun} (h : first b = .begun s) : s.Long := by
  obtain ⟨hlow, hhigh⟩ := first_begun h
  rcases Nat.lt_or_ge b.toNat 0xE0 with htwo | htwo
  · rw [first_two hlow htwo] at h
    injection h with h
    subst h
    apply Begun.Long.mk <;> simp
    omega
  · rcases Nat.lt_or_ge b.toNat 0xF0 with hthree | hthree
    · rw [first_three htwo hthree] at h
      injection h with h
      subst h
      by_cases hE0 : b.toNat = 0xE0
      · apply Begun.Long.mk <;> simp [hE0]
      · apply Begun.Long.mk <;> simp [hE0]
        omega
    · rw [first_four hthree hhigh] at h
      injection h with h
      subst h
      by_cases hF0 : b.toNat = 0xF0
      · apply Begun.Long.mk <;> simp [hF0]
      · apply Begun.Long.mk <;> simp [hF0]
        omega

theorem ofNat_newline {n : Nat} (h : Char.ofNat n = '\n') : n = 10 := by
  have hcode := congrArg Char.toNat h
  by_cases hn : n.isValidChar
  · have hself : (Char.ofNat n).toNat = n := by
      rw [Char.ofNat, dif_pos hn]
      rfl
    exact hself.symm.trans hcode
  · have hzero : Char.ofNat n = Char.ofNat 0 := by
      rw [Char.ofNat, dif_neg hn]
      rfl
    rw [hzero] at h
    contradiction

/-- A byte that stands alone shows a newline only if it is one. -/
theorem first_newline {b : UInt8} {p : Piece} (h : first b = .piece p) (hp : p.shown = '\n') :
    b = 10 := by
  cases p with
  | broken => contradiction
  | char c =>
    by_cases hb : b < 0x80
    · rw [first, if_pos hb] at h
      cases h
      exact UInt8.toNat_inj.mp (ofNat_newline hp)
    · unfold first at h
      rw [if_neg hb] at h
      repeat' split at h
      all_goals simp at h

/-- A byte goes on with a character only if it is past the first 128. -/
theorem Begun.Long.not_newline {s : Begun} (h : s.Long) : ¬(s.low ≤ 10 ∧ 10 ≤ s.high) := by
  rintro ⟨hlow, -⟩
  have hten : s.low.toNat ≤ 10 := UInt8.le_iff_toNat_le.mp hlow
  have := h.low
  omega

/-- A character that goes on stays as far from the first 128. -/
theorem Begun.Long.next {s : Begun} (h : s.Long) {b : UInt8} (hb : s.low ≤ b)
    (hleft : ¬s.left ≤ 1) :
    Begun.Long { value := s.value * 64 + (b.toNat - 0x80), left := s.left - 1 } := by
  have hlow : s.low.toNat ≤ b.toNat := UInt8.le_iff_toNat_le.mp hb
  obtain ⟨left, hs⟩ : ∃ left, s.left = left + 2 := ⟨s.left - 2, by omega⟩
  have hvalue := h.value
  apply Begun.Long.mk
  · simp
  · simp only [hs] at hvalue ⊢
    have hmore : s.value * 64 + (s.low.toNat - 0x80) ≤ s.value * 64 + (b.toNat - 0x80) := by omega
    calc 0x80 ≤ (s.value * 64 + (s.low.toNat - 0x80)) * 64 ^ (left + 1) := hvalue
      _ ≤ (s.value * 64 + (b.toNat - 0x80)) * 64 ^ (left + 1) := Nat.mul_le_mul_right _ hmore
      _ = _ := by simp [Nat.pow_succ', Nat.mul_assoc]

/-- The character that a last byte completes is none of the first 128. -/
theorem Begun.Long.last {s : Begun} (h : s.Long) {b : UInt8} (hb : s.low ≤ b)
    (hleft : s.left ≤ 1) : 0x80 ≤ s.value * 64 + (b.toNat - 0x80) := by
  have hlow : s.low.toNat ≤ b.toNat := UInt8.le_iff_toNat_le.mp hb
  have hvalue := h.value
  rw [Nat.sub_eq_zero_of_le hleft, Nat.pow_zero, Nat.mul_one] at hvalue
  omega

/-- A byte out of range is read afresh. -/
theorem piecesFrom_off {s : Begun} {b : UInt8} {bs : Bytes} (h : ¬(s.low ≤ b ∧ b ≤ s.high)) :
    piecesFrom (some s) (b :: bs) = .broken :: piecesFrom none (b :: bs) := by
  rw [piecesFrom, piecesFrom, if_neg h]

theorem long_none : ∀ t ∈ (none : Option Begun), t.Long :=
  fun t ht => absurd ht (Option.not_mem_none t)

/-- A newline byte is a character of its own wherever it stands. -/
theorem piecesFrom_newline (s : Option Begun) (hs : ∀ t ∈ s, t.Long) (bs rest : Bytes) :
    piecesFrom s (bs ++ 10 :: rest) = piecesFrom s bs ++ .char '\n' :: piecesFrom none rest := by
  have hfirst : first 10 = .piece (.char '\n') := rfl
  induction bs generalizing s with
  | nil =>
    cases s with
    | none => rfl
    | some t =>
      rw [List.nil_append, piecesFrom_off (hs t rfl).not_newline]
      rfl
  | cons b bs ih =>
    -- Read where no character is begun, the byte begins one or is a piece of its own.
    have hfresh : piecesFrom none (b :: bs ++ 10 :: rest) =
        piecesFrom none (b :: bs) ++ .char '\n' :: piecesFrom none rest := by
      rw [List.cons_append, piecesFrom, piecesFrom]
      cases hb : first b with
      | piece p => exact congrArg (p :: ·) (ih none long_none)
      | begun s => exact ih (some s) fun t ht => Option.some.inj ht ▸ first_long hb
    cases s with
    | none => exact hfresh
    | some s =>
      have hlong := hs s rfl
      by_cases hb : s.low ≤ b ∧ b ≤ s.high
      · rw [List.cons_append, piecesFrom, piecesFrom, if_pos hb, if_pos hb]
        split
        · rw [ih none long_none, List.cons_append]
        · next hleft => exact ih _ fun t ht => Option.some.inj ht ▸ hlong.next hb.1 hleft
      · rw [List.cons_append, piecesFrom_off hb, piecesFrom_off hb, ← List.cons_append, hfresh,
          List.cons_append]

/-- A newline is shown only for a newline byte. -/
theorem newline_of_piecesFrom (s : Option Begun) (hs : ∀ t ∈ s, t.Long) {bs : Bytes}
    (h : '\n' ∈ (piecesFrom s bs).map Piece.shown) : 10 ∈ bs := by
  have hbroken : '\n' ≠ Piece.broken.shown := by decide
  induction bs generalizing s with
  | nil =>
    cases s with
    | none => simp [piecesFrom] at h
    | some t => simp [piecesFrom, hbroken] at h
  | cons b bs ih =>
    have hfresh (h : '\n' ∈ (piecesFrom none (b :: bs)).map Piece.shown) : 10 ∈ b :: bs := by
      rw [piecesFrom] at h
      cases hb : first b with
      | piece p =>
        rw [hb, List.map_cons, List.mem_cons] at h
        rcases h with h | h
        · exact List.mem_cons.mpr (.inl (first_newline hb h.symm).symm)
        · exact List.mem_cons_of_mem _ (ih none long_none h)
      | begun s =>
        rw [hb] at h
        exact List.mem_cons_of_mem _ (ih (some s) (fun t ht => Option.some.inj ht ▸ first_long hb) h)
    cases s with
    | none => exact hfresh h
    | some s =>
      have hlong := hs s rfl
      by_cases hb : s.low ≤ b ∧ b ≤ s.high
      · apply List.mem_cons_of_mem
        rw [piecesFrom, if_pos hb] at h
        split at h
        · next hleft =>
          rw [List.map_cons, List.mem_cons] at h
          rcases h with h | h
          · have hpast := hlong.last hb.1 hleft
            have hten : Char.ofNat (s.value * 64 + (b.toNat - 0x80)) = '\n' := h.symm
            have := ofNat_newline hten
            omega
          · exact ih none long_none h
        · next hleft =>
          exact ih _ (fun t ht => Option.some.inj ht ▸ hlong.next hb.1 hleft) h
      · rw [piecesFrom_off hb, List.map_cons, List.mem_cons] at h
        rcases h with h | h
        · exact absurd h hbroken
        · exact hfresh h

/-- Bytes and a newline show what they show apart. -/
theorem decodeLossy_newline (bs rest : Bytes) :
    decodeLossy (bs ++ 10 :: rest) = decodeLossy bs ++ "\n" ++ decodeLossy rest := by
  have hpieces := piecesFrom_newline none nofun bs rest
  apply String.toList_injective
  simp [decodeLossy, pieces, hpieces, Piece.shown]

theorem decodeLossy_newline_end (bs : Bytes) :
    decodeLossy (bs ++ [10]) = decodeLossy bs ++ "\n" := by
  simpa [decodeLossy, pieces, piecesFrom] using decodeLossy_newline bs []

theorem newline_of_decodeLossy {bs : Bytes} (h : '\n' ∈ (decodeLossy bs).toList) : 10 ∈ bs := by
  rw [decodeLossy, String.toList_ofList] at h
  exact newline_of_piecesFrom none nofun h

theorem piecesFrom_eq_nil {s : Option Begun} {bs : Bytes} (h : piecesFrom s bs = []) : bs = [] := by
  have hbegun : ∀ t bs, piecesFrom (some t) bs ≠ [] := by
    intro t bs
    induction bs generalizing t with
    | nil => simp [piecesFrom]
    | cons b bs ih =>
      rw [piecesFrom]
      split
      · split
        · exact List.cons_ne_nil _ _
        · exact ih _
      · exact List.cons_ne_nil _ _
  cases bs with
  | nil => rfl
  | cons b bs =>
    cases s with
    | none =>
      rw [piecesFrom] at h
      split at h
      · contradiction
      · exact absurd h (hbegun _ _)
    | some t => exact absurd h (hbegun _ _)

/-- Only no bytes at all show nothing. -/
theorem decodeLossy_ne_empty {bs : Bytes} (h : bs ≠ []) : decodeLossy bs ≠ "" := by
  intro hnone
  have hpieces : (pieces bs).map Piece.shown = [] := by
    simpa [decodeLossy] using congrArg String.toList hnone
  exact h (piecesFrom_eq_nil (List.map_eq_nil_iff.mp hpieces))

/-- The lines of a text as newlines separate them. Behind a newline at the end there is no line. -/
def newlineLines (s : String) : List String :=
  let parts := (s.toList.splitOn '\n').map String.ofList
  if parts.getLast? = some "" then parts.dropLast else parts

theorem newlineLines_line {l : String} (h : '\n' ∉ l.toList) (rest : String) :
    newlineLines (l ++ "\n" ++ rest) = l :: newlineLines rest := by
  have hsplit : (l ++ "\n" ++ rest).toList.splitOn '\n' = l.toList :: rest.toList.splitOn '\n' := by
    have hcut := List.splitOn_append_cons_self (a := '\n') l.toList rest.toList
    simpa [List.splitOn_eq_singleton h] using hcut
  rw [newlineLines, newlineLines, hsplit]
  cases hrest : rest.toList.splitOn '\n' with
  | nil => exact absurd hrest (List.splitOn_ne_nil _ _)
  | cons p ps =>
    simp only [List.map_cons, String.ofList_toList, List.getLast?_cons_cons, List.dropLast_cons_cons]
    split <;> rfl

theorem newlineLines_last {l : String} (h : '\n' ∉ l.toList) :
    newlineLines l = if l = "" then [] else [l] := by
  rw [newlineLines, List.splitOn_eq_singleton h]
  simp

/-- A line without its newline. -/
def dropNewline (s : String) : String :=
  if s.toList.getLast? = some '\n' then String.ofList s.toList.dropLast else s

@[simp] theorem dropNewline_newline (s : String) : dropNewline (s ++ "\n") = s := by
  simp [dropNewline]

theorem dropNewline_none {s : String} (h : '\n' ∉ s.toList) : dropNewline s = s := by
  have hlast : s.toList.getLast? ≠ some '\n' := fun hs => h (List.mem_of_getLast? hs)
  rw [dropNewline, if_neg hlast]

/-- Blanks at the end are cut from a line with its newline as from the line alone. -/
theorem trimEnd_dropNewline (s : String) : trimEnd (dropNewline s) = trimEnd s := by
  rw [dropNewline]
  split
  · next h =>
    obtain ⟨cs, hcs⟩ := List.getLast?_eq_some_iff.mp h
    have hnewline : isBlank '\n' = true := by decide
    simp [trimEnd, dropBlankEnd, hcs, hnewline]
  · rfl

theorem rawLines_line {bs : Bytes} (h : 10 ∉ bs) (rest : Bytes) :
    rawLines (bs ++ 10 :: rest) = (bs ++ [10]) :: rawLines rest := by
  induction bs with
  | nil => simp [rawLines]
  | cons b bs ih =>
    rw [List.mem_cons, not_or] at h
    rw [List.cons_append, rawLines, if_neg (Ne.symm h.1), ih h.2, List.cons_append]

theorem rawLines_last {bs : Bytes} (h : 10 ∉ bs) : rawLines bs = if bs = [] then [] else [bs] := by
  induction bs with
  | nil => rfl
  | cons b bs ih =>
    rw [List.mem_cons, not_or] at h
    rw [rawLines, if_neg (Ne.symm h.1), ih h.2]
    cases bs <;> simp

/-- Bytes are lines that newlines end, and a last one that none ends. -/
theorem bytes_by_lines {P : Bytes → Prop} (last : ∀ bs, 10 ∉ bs → P bs)
    (line : ∀ bs rest, 10 ∉ bs → P rest → P (bs ++ 10 :: rest)) (bs : Bytes) : P bs := by
  by_cases h : 10 ∈ bs
  · obtain ⟨before, rest, hbs, hbefore⟩ := List.eq_append_cons_of_mem h
    have hshorter : rest.length < bs.length := by
      rw [hbs, List.length_append, List.length_cons]
      omega
    rw [hbs]
    exact line before rest hbefore (bytes_by_lines last line rest)
  · exact last bs h
termination_by bs.length

/-- The lines of the bytes, each shown for itself, are the lines of the text shown as a whole. -/
theorem decode_lines (bs : Bytes) :
    (rawLines bs).map (fun l => dropNewline (decodeLossy l)) = newlineLines (decodeLossy bs) := by
  induction bs using bytes_by_lines with
  | last bs h =>
    have hshown : '\n' ∉ (decodeLossy bs).toList := mt newline_of_decodeLossy h
    rw [rawLines_last h, newlineLines_last hshown]
    by_cases hbs : bs = []
    · rw [hbs]
      rfl
    · rw [if_neg hbs, if_neg (decodeLossy_ne_empty hbs), List.map_singleton, dropNewline_none hshown]
  | line bs rest h ih =>
    have hshown : '\n' ∉ (decodeLossy bs).toList := mt newline_of_decodeLossy h
    rw [rawLines_line h, decodeLossy_newline, newlineLines_line hshown, List.map_cons,
      decodeLossy_newline_end, dropNewline_newline, ih]

/-- Nothing is lost between the lines. -/
theorem join_decode_lines (bs : Bytes) :
    String.join ((rawLines bs).map decodeLossy) = decodeLossy bs := by
  induction bs using bytes_by_lines with
  | last bs h =>
    rw [rawLines_last h]
    by_cases hbs : bs = []
    · rw [hbs]
      rfl
    · simp [hbs]
  | line bs rest h ih =>
    rw [rawLines_line h, List.map_cons, String.join_cons, ih, decodeLossy_newline_end,
      decodeLossy_newline]

end Regression.Text
