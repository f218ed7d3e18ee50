import Regression.Text.Utf8

namespace Regression.Text

/-- The decision table for a first byte of a longer character, by its number. -/
theorem first_two {b : UInt8} (hlow : 0xC2 ≤ b.toNat) (hhigh : b.toNat < 0xE0) :
    first b = .begun { value := b.toNat - 0xC0, left := 1 } := by
  have h₁ : ¬b < 0x80 := by simp [UInt8.lt_iff_toNat_lt]; omega
  have h₂ : ¬b < 0xC2 := by simp [UInt8.lt_iff_toNat_lt]; omega
  have h₃ : b < 0xE0 := by simpa [UInt8.lt_iff_toNat_lt] using hhigh
  simp only [first, if_neg h₁, if_neg h₂, if_pos h₃]

theorem first_three {b : UInt8} (hlow : 0xE0 ≤ b.toNat) (hhigh : b.toNat < 0xF0) :
    first b = .begun { value := b.toNat - 0xE0, left := 2
                       low := if b.toNat = 0xE0 then 0xA0 else 0x80
                       high := if b.toNat = 0xED then 0x9F else 0xBF } := by
  have h₁ : ¬b < 0x80 := by simp [UInt8.lt_iff_toNat_lt]; omega
  have h₂ : ¬b < 0xC2 := by simp [UInt8.lt_iff_toNat_lt]; omega
  have h₃ : ¬b < 0xE0 := by simp [UInt8.lt_iff_toNat_lt]; omega
  have h₄ : b < 0xF0 := by simpa [UInt8.lt_iff_toNat_lt] using hhigh
  have hE0 : b = 0xE0 ↔ b.toNat = 0xE0 := by simp [← UInt8.toNat_inj]
  have hED : b = 0xED ↔ b.toNat = 0xED := by simp [← UInt8.toNat_inj]
  simp only [first, if_neg h₁, if_neg h₂, if_neg h₃, if_pos h₄, hE0, hED]
  split
  · next h => simp [h]
  · split
    · next h => simp [h]
    · rfl

theorem first_four {b : UInt8} (hlow : 0xF0 ≤ b.toNat) (hhigh : b.toNat < 0xF5) :
    first b = .begun { value := b.toNat - 0xF0, left := 3
                       low := if b.toNat = 0xF0 then 0x90 else 0x80
                       high := if b.toNat = 0xF4 then 0x8F else 0xBF } := by
  have h₁ : ¬b < 0x80 := by simp [UInt8.lt_iff_toNat_lt]; omega
  have h₂ : ¬b < 0xC2 := by simp [UInt8.lt_iff_toNat_lt]; omega
  have h₃ : ¬b < 0xE0 := by simp [UInt8.lt_iff_toNat_lt]; omega
  have h₄ : ¬b < 0xF0 := by simp [UInt8.lt_iff_toNat_lt]; omega
  have h₅ : b < 0xF4 ↔ b.toNat < 0xF4 := by simp [UInt8.lt_iff_toNat_lt]
  have hE0 : ¬b = 0xE0 := by simp [← UInt8.toNat_inj]; omega
  have hED : ¬b = 0xED := by simp [← UInt8.toNat_inj]; omega
  have hF0 : b = 0xF0 ↔ b.toNat = 0xF0 := by simp [← UInt8.toNat_inj]
  have hF4 : b = 0xF4 ↔ b.toNat = 0xF4 := by simp [← UInt8.toNat_inj]
  simp only [first, if_neg h₁, if_neg h₂, if_neg h₃, if_neg h₄, if_neg hE0, if_neg hED, hF0, hF4, h₅]
  by_cases h : b.toNat = 0xF0
  · simp [h]
  · by_cases h' : b.toNat = 0xF4
    · simp [h']
    · have hlt : b.toNat < 0xF4 := by omega
      simp [h, h', hlt]

/-- A byte that goes on with a character. -/
theorem piecesFrom_on {s : Begun} {b : UInt8} {bs : Bytes} (hlow : s.low.toNat ≤ b.toNat)
    (hhigh : b.toNat ≤ s.high.toNat) :
    piecesFrom (some s) (b :: bs) =
      if s.left ≤ 1 then .char (Char.ofNat (s.value * 64 + (b.toNat - 0x80))) :: piecesFrom none bs
      else piecesFrom (some { value := s.value * 64 + (b.toNat - 0x80), left := s.left - 1 }) bs := by
  rw [piecesFrom, if_pos ⟨UInt8.le_iff_toNat_le.mpr hlow, UInt8.le_iff_toNat_le.mpr hhigh⟩]

theorem tail_toNat (n : Nat) : (UInt8.ofNat (n % 64 + 0x80)).toNat = n % 64 + 0x80 := by
  simp only [UInt8.toNat_ofNat']
  omega

/-- Any later byte adds six bits. -/
theorem piecesFrom_tail (value left n : Nat) (bs : Bytes) :
    piecesFrom (some { value, left }) (UInt8.ofNat (n % 64 + 0x80) :: bs) =
      if left ≤ 1 then .char (Char.ofNat (value * 64 + n % 64)) :: piecesFrom none bs
      else piecesFrom (some { value := value * 64 + n % 64, left := left - 1 }) bs := by
  have hlow : (0x80 : UInt8).toNat ≤ n % 64 + 0x80 := Nat.le_add_left ..
  have hhigh : n % 64 + 0x80 ≤ (0xBF : UInt8).toNat := by
    have : (0xBF : UInt8).toNat = 0xBF := rfl
    omega
  rw [piecesFrom_on (by rw [tail_toNat]; exact hlow) (by rw [tail_toNat]; exact hhigh), tail_toNat,
    Nat.add_sub_cancel]

/-- The bytes of a character are read as that character, whatever comes after them. -/
theorem piecesFrom_encoded (c : Char) (rest : Bytes) :
    piecesFrom none (String.utf8EncodeChar c ++ rest) = .char c :: piecesFrom none rest := by
  have hv : c.toNat < 0xD800 ∨ 0xDFFF < c.toNat ∧ c.toNat < 0x110000 := c.valid
  have hc : Char.ofNat c.toNat = c := Char.ofNat_toNat c
  have hu : c.val.toNat = c.toNat := rfl
  generalize c.toNat = v at hv hc hu
  simp only [String.utf8EncodeChar, hu]
  split
  · next h =>
    have hb : (UInt8.ofNat v).toNat = v := by simp only [UInt8.toNat_ofNat']; omega
    have hlow : UInt8.ofNat v < 0x80 := by simp only [UInt8.lt_iff_toNat_lt, hb]; simp; omega
    rw [List.singleton_append, piecesFrom, first, if_pos hlow]
    simp only [hb, hc]
  · split
    · next h₁ h =>
      have hb : (UInt8.ofNat (v / 64 % 32 + 0xc0)).toNat = v / 64 + 0xc0 := by
        simp only [UInt8.toNat_ofNat']; omega
      have hval : (v / 64 + 0xc0 - 0xc0) * 64 + v % 64 = v := by omega
      rw [List.cons_append, List.singleton_append, piecesFrom, first_two (by omega) (by omega)]
      simp only [piecesFrom_tail, hb, hval, hc]
      rfl
    · split
      · next h₂ h₁ h =>
        have hb : (UInt8.ofNat (v / 4096 % 16 + 0xe0)).toNat = v / 4096 + 0xe0 := by
          simp only [UInt8.toNat_ofNat']; omega
        have hval : (v / 4096 * 64 + v / 64 % 64) * 64 + v % 64 = v := by omega
        rw [List.cons_append, List.cons_append, List.singleton_append, piecesFrom,
          first_three (by omega) (by omega)]
        simp only
        rw [piecesFrom_on (by simp only [hb, tail_toNat]; split <;> simp; omega)
          (by simp only [hb, tail_toNat]; split <;> simp <;> omega)]
        simp only [piecesFrom_tail, tail_toNat, Nat.add_sub_cancel_right, hb, hval, hc]
        rfl
      · next h₂ h₁ h =>
        have hb : (UInt8.ofNat (v / 262144 % 8 + 0xf0)).toNat = v / 262144 + 0xf0 := by
          simp only [UInt8.toNat_ofNat']; omega
        have hval : ((v / 262144 * 64 + v / 4096 % 64) * 64 + v / 64 % 64) * 64 + v % 64 = v := by
          omega
        rw [List.cons_append, List.cons_append, List.cons_append, List.singleton_append, piecesFrom,
          first_four (by omega) (by omega)]
        simp only
        rw [piecesFrom_on (by simp only [hb, tail_toNat]; split <;> simp; omega)
          (by simp only [hb, tail_toNat]; split <;> simp <;> omega)]
        simp only [piecesFrom_tail, tail_toNat, Nat.add_sub_cancel_right, hb, hval, hc]
        rfl

theorem pieces_encode (s : String) : pieces (encode s) = s.toList.map Piece.char := by
  simp only [pieces, encode]
  induction s.toList with
  | nil => rfl
  | cons c cs ih => rw [List.flatMap_cons, piecesFrom_encoded, ih, List.map_cons]

/-- A text written is read back as it was. -/
theorem decode?_encode (s : String) : decode? (encode s) = some s := by
  have h : (s.toList.map Piece.char).mapM Piece.char? = some s.toList := by
    induction s.toList with
    | nil => rfl
    | cons c cs ih => simp [Piece.char?, ih]
  simp [decode?, pieces_encode, h]

@[simp] theorem encode_append (s₁ s₂ : String) : encode (s₁ ++ s₂) = encode s₁ ++ encode s₂ := by
  simp [encode]

end Regression.Text
