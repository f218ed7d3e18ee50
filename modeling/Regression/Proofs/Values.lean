import Regression.CommandLine.Choices
import Regression.Proofs.Lines

namespace Regression

namespace Text

/-- A number does not shrink as digits are put behind it. -/
theorem le_ofDigitChars (value : Nat) (cs : List Char) : value ≤ Nat.ofDigitChars 10 cs value := by
  induction cs generalizing value with
  | nil => simp
  | cons c cs ih =>
    rw [Nat.ofDigitChars_cons]
    have hmore := ih (10 * value + (c.toNat - '0'.toNat))
    omega

theorem digit?_of_isDigit {c : Char} (h : c.isDigit) : digit? c = some (c.toNat - '0'.toNat) := by
  simp only [Char.isDigit, Bool.and_eq_true, decide_eq_true_eq] at h
  exact if_pos h

theorem digitsFrom_digits {limit : Nat} {past : NumeralFault} {value : Nat} {cs : List Char}
    (hdigits : ∀ c ∈ cs, c.isDigit) (hlimit : Nat.ofDigitChars 10 cs value ≤ limit) :
    digitsFrom limit past value cs = .ok (Nat.ofDigitChars 10 cs value) := by
  induction cs generalizing value with
  | nil => simp [digitsFrom]
  | cons c cs ih =>
    obtain ⟨hc, hcs⟩ := List.forall_mem_cons.mp hdigits
    have hnext : 10 * value + (c.toNat - '0'.toNat) = value * 10 + (c.toNat - '0'.toNat) := by omega
    rw [Nat.ofDigitChars_cons, hnext] at hlimit ⊢
    have hle := Nat.le_trans (le_ofDigitChars _ cs) hlimit
    simp only [digitsFrom, digit?_of_isDigit hc, if_pos hle, ih hcs hlimit]

/-- A number is read back from its digits, which have no sign. -/
theorem readInt_repr (low : Nat) {n high : Nat} (h : n ≤ high) :
    readInt low high n.repr = .ok n := by
  have hdigit : ∀ c ∈ Nat.toDigits 10 n, c.isDigit := fun c hc =>
    Nat.isDigit_of_mem_toDigits (by decide) (by decide) hc
  have hvalue : Nat.ofDigitChars 10 (Nat.toDigits 10 n) 0 = n := Nat.ofDigitChars_ten_toDigits
  have hread : digitsFrom high .tooLarge 0 (Nat.toDigits 10 n) = .ok _ :=
    digitsFrom_digits hdigit (hvalue.symm ▸ h)
  have hplus : '+' ∉ Nat.toDigits 10 n := not_mem_digits (by decide) n
  have hminus : '-' ∉ Nat.toDigits 10 n := not_mem_digits (by decide) n
  have hletters : n.repr.toList = Nat.toDigits 10 n := Nat.toList_repr
  rw [readInt, hletters]
  split
  · next hnil => exact absurd hnil Nat.toDigits_ne_nil
  · next hsign => simp [hsign] at hplus
  · next hsign => simp [hsign] at hminus
  · next hsign => simp [hsign] at hplus
  · next hsign => simp [hsign] at hminus
  · rw [hread, hvalue]
    rfl

theorem of_digitsFrom {limit value n : Nat} {past : NumeralFault} {cs : List Char}
    (hdigits : ∀ c ∈ cs, c.isDigit) (hvalue : value ≤ limit)
    (h : digitsFrom limit past value cs = .ok n) : n = Nat.ofDigitChars 10 cs value ∧ n ≤ limit := by
  induction cs generalizing value with
  | nil =>
    cases h
    exact ⟨by simp, hvalue⟩
  | cons c cs ih =>
    obtain ⟨hc, hcs⟩ := List.forall_mem_cons.mp hdigits
    simp only [digitsFrom, digit?_of_isDigit hc] at h
    split at h
    · next hle =>
      obtain ⟨hn, hlimit⟩ := ih hcs hle h
      rw [Nat.ofDigitChars_cons, Nat.mul_comm 10]
      exact ⟨hn, hlimit⟩
    · cases h

theorem readCount_digits {n : Nat} (h : n ≤ countLimit) :
    readCount (String.ofList (Nat.toDigits 10 n)) = some n := by
  have hread : readInt 0 countLimit (String.ofList (Nat.toDigits 10 n)) = .ok n :=
    readInt_repr 0 h
  rw [readCount, hread]
  rfl

/-- A count that is read from digits alone is the number that they spell. -/
theorem of_readCount {cs : List Char} {n : Nat} (hdigits : ∀ c ∈ cs, c.isDigit)
    (h : readCount (String.ofList cs) = some n) : n = Nat.ofDigitChars 10 cs 0 ∧ n ≤ countLimit := by
  have hplus : '+' ∉ cs := fun hmem => absurd (hdigits _ hmem) (by decide)
  have hminus : '-' ∉ cs := fun hmem => absurd (hdigits _ hmem) (by decide)
  unfold readCount readInt at h
  rw [String.toList_ofList] at h
  split at h
  · next i hread =>
    split at hread
    · cases hread
    · simp at hplus
    · simp at hminus
    · simp at hplus
    · simp at hminus
    · obtain ⟨k, hk, rfl⟩ : ∃ k, digitsFrom countLimit .tooLarge 0 cs = .ok k ∧ Int.ofNat k = i := by
        cases hfrom : digitsFrom countLimit .tooLarge 0 cs with
        | error e => simp [hfrom, Except.map] at hread
        | ok k => exact ⟨k, rfl, by simpa [hfrom, Except.map] using hread⟩
      cases h
      exact of_digitsFrom hdigits (Nat.zero_le _) hk
  · cases h

end Text

namespace CommandLine

/-- The numbers that a count can be. -/
def IsCount (n : Nat) : Prop :=
  n ≤ Text.countLimit

theorem readCount_repr {n : Nat} (h : IsCount n) : readCount n.repr = .ok n := by
  have hword : n ≤ wordLimit := Nat.le_trans h (by decide)
  have hread := Text.readInt_repr (wordLimit + 1) hword
  have hrange : (0 : Int) ≤ n ∧ (n : Int) ≤ Text.countLimit :=
    ⟨Int.natCast_nonneg n, Int.ofNat_le.mpr h⟩
  simp only [readCount, hread, if_pos hrange, Int.toNat_natCast]

theorem readPath_text {p : Path} (h : p.text ≠ "") : readPath p.text = .ok p :=
  if_neg (by simpa using h)

theorem byReason_ofText_value (m : FuturesMode) : byReason (FuturesMode.ofText m.value) = .ok m := by
  cases m <;> rfl

theorem byReason_ofText_text (g : GraphReduction) :
    byReason (GraphReduction.ofText g.text) = .ok g := by
  cases g <;> rfl

namespace Opt.Kind

/-- A value as it is written. A switch has none. -/
def written : (k : Kind) → k.Value → Option String
  | .switch, _ => none
  | .text, s => some s
  | .path, p => some (Path.text p)
  | .count, n => some (Nat.repr n)
  | .futuresMode, m => some (FuturesMode.value m)
  | .graphReduction, g => some (GraphReduction.text g)

/-- The values that can be written: paths are not empty, and counts are within their bounds. -/
def Fits : (k : Kind) → k.Value → Prop
  | .path, p => Path.text p ≠ ""
  | .count, n => IsCount n
  | .switch, _ | .text, _ | .futuresMode, _ | .graphReduction, _ => True

variable {k : Kind} {v : k.Value}

theorem read_written (h : k.Fits v) : k.read ((k.written v).getD "") = .ok v := by
  cases k with
  | switch => rfl
  | text => rfl
  | path => exact readPath_text h
  | count => exact readCount_repr h
  | futuresMode => exact byReason_ofText_value v
  | graphReduction => exact byReason_ofText_text v

theorem written_isSome (k : Kind) (v : k.Value) : (k.written v).isSome = (k != .switch) := by
  cases k <;> rfl

end Opt.Kind

theorem path_of_readPath {s : String} {p : Path} (h : readPath s = .ok p) : p.text = s := by
  unfold readPath at h
  split at h
  · cases h
  · cases h
    rfl

theorem kind_of_repeats {o : Opt} (h : o.repeats) : o.kind = .text ∨ o.kind = .path := by
  cases o <;> first | exact .inl rfl | exact .inr rfl | cases h

/-- What a list gathers it keeps as it was written. -/
theorem written_of_read {o : Opt} (h : o.repeats) {s : String} {v : o.kind.Value}
    (hread : o.kind.read s = .ok v) : o.kind.written v = some s := by
  generalize hk : o.kind = k at v
  rcases kind_of_repeats h with htext | hpath
  · rw [hk] at htext
    subst htext
    cases hread
    rfl
  · rw [hk] at hpath
    subst hpath
    exact congrArg some (path_of_readPath hread)

end CommandLine

end Regression
