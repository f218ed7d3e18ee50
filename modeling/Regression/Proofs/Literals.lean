import Mathlib.Data.List.DropRight
import Mathlib.Data.List.Induction
import Mathlib.Data.List.TakeDrop
import Mathlib.Data.List.TakeWhile
import Mathlib.Tactic.SplitIfs
import Regression.Json.Reading

namespace Regression.Json

/-- White space between the parts of a text. -/
def Spaces (w : List Char) : Prop := ∀ c ∈ w, isSpace c = true

theorem spaces_nil : Spaces [] := fun _ hc => nomatch hc

theorem skip_spaces {w : List Char} (hw : Spaces w) (cs : List Char) : skip (w ++ cs) = skip cs :=
  List.dropWhile_append_of_pos hw

theorem skip_cons {c : Char} (hc : isSpace c = false) (cs : List Char) : skip (c :: cs) = c :: cs :=
  List.dropWhile_cons_of_neg (Bool.eq_false_iff.mp hc)

theorem skip_skip (cs : List Char) : skip (skip cs) = skip cs :=
  List.dropWhile_idempotent _ _

/-- What is skipped is white space. -/
theorem skip_cut (cs : List Char) : ∃ w, cs = w ++ skip cs ∧ Spaces w := by
  refine ⟨cs.takeWhile isSpace, List.takeWhile_append_dropWhile.symm, ?_⟩
  exact fun c hc => List.all_eq_true.mp List.all_takeWhile c hc

/-- A run of digits, of one at least. -/
structure Digits (ds : List Char) : Prop where
  some : ds ≠ []
  all : ∀ c ∈ ds, isDigit c = true

/-- A text that does not go on with a digit. -/
def Undigited (cs : List Char) : Prop := ∀ c ∈ cs.head?, isDigit c = false

theorem digits_append {ds rest : List Char} (h : Digits ds) (hrest : Undigited rest) :
    digits (ds ++ rest) = some (ds, rest) := by
  have htake : (ds ++ rest).takeWhile isDigit = ds := by
    rw [List.takeWhile_append_of_pos h.all]
    cases rest with
    | nil => simp
    | cons c cs => simp [hrest c rfl]
  have hdrop : (ds ++ rest).dropWhile isDigit = rest := by
    rw [List.dropWhile_append_of_pos h.all]
    cases rest with
    | nil => rfl
    | cons c cs => simp [hrest c rfl]
  simp [digits, List.span_eq_takeWhile_dropWhile, htake, hdrop, h.some]

theorem of_digits {cs ds rest : List Char} (h : digits cs = some (ds, rest)) :
    cs = ds ++ rest ∧ Digits ds := by
  simp only [digits, List.span_eq_takeWhile_dropWhile] at h
  split at h
  · cases h
  · next hne =>
    cases h
    refine ⟨List.takeWhile_append_dropWhile.symm, by simpa using hne, ?_⟩
    exact fun c hc => List.all_eq_true.mp List.all_takeWhile c hc

/-- The whole part of a number starts with a zero only if it is zero. -/
inductive IsWhole : List Char → Prop where
  | zero : IsWhole ['0']
  | more {c : Char} {ds : List Char} (hc : isDigit c = true) (hzero : c ≠ '0')
    (h : ∀ d ∈ ds, isDigit d = true) : IsWhole (c :: ds)

inductive IsFraction : List Char → Prop where
  | none : IsFraction []
  | some {ds : List Char} (h : Digits ds) : IsFraction ('.' :: ds)

inductive IsExponent : List Char → Prop where
  | none : IsExponent []
  | some {e : Char} {sign ds : List Char} (he : e = 'e' ∨ e = 'E')
    (hsign : sign = [] ∨ sign = ['+'] ∨ sign = ['-']) (h : Digits ds) :
    IsExponent (e :: (sign ++ ds))

/-- How a number is spelt. -/
inductive IsNumber : List Char → Prop where
  | parts {sign whole fraction exponent : List Char} (hsign : sign = [] ∨ sign = ['-'])
    (hwhole : IsWhole whole) (hfraction : IsFraction fraction) (hexponent : IsExponent exponent) :
    IsNumber (sign ++ whole ++ fraction ++ exponent)

/-- A text that a number does not go on with. -/
def Stop (cs : List Char) : Prop :=
  ∀ c ∈ cs.head?, isDigit c = false ∧ c ≠ '.' ∧ c ≠ 'e' ∧ c ≠ 'E'

theorem IsWhole.digits {whole : List Char} (h : IsWhole whole) : Digits whole := by
  cases h with
  | zero => exact ⟨List.cons_ne_nil _ _, List.forall_mem_singleton.mpr (by decide)⟩
  | more hc _ h => exact ⟨List.cons_ne_nil _ _, List.forall_mem_cons.mpr ⟨hc, h⟩⟩

theorem wholePart_append {whole rest : List Char} (h : IsWhole whole) (hrest : Undigited rest) :
    wholePart (whole ++ rest) = some (whole, rest) := by
  cases h with
  | zero =>
    cases rest with
    | nil => rfl
    | cons c cs => simp [wholePart, hrest c rfl]
  | @more c ds hc hzero h =>
    have hdigits : Digits (c :: ds) := (IsWhole.more hc hzero h).digits
    have hwhole : wholePart (c :: ds ++ rest) = Json.digits (c :: ds ++ rest) := by
      simp [wholePart, hzero]
    rw [hwhole, digits_append hdigits hrest]

theorem of_wholePart {cs whole rest : List Char} (h : wholePart cs = some (whole, rest)) :
    cs = whole ++ rest ∧ IsWhole whole := by
  unfold wholePart at h
  split at h
  · split at h
    · cases h
    · cases h
      exact ⟨rfl, .zero⟩
  · next cs hlong =>
    obtain ⟨rfl, hdigits⟩ := of_digits h
    refine ⟨rfl, ?_⟩
    cases whole with
    | nil => exact absurd rfl hdigits.some
    | cons d ds =>
      by_cases hd : d = '0'
      · subst hd
        cases ds with
        | nil => exact .zero
        | cons d' ds' => exact absurd rfl (hlong d' (ds' ++ rest))
      · obtain ⟨hdigit, hds⟩ := List.forall_mem_cons.mp hdigits.all
        exact .more hdigit hd hds

theorem fractionPart_append {fraction rest : List Char} (h : IsFraction fraction)
    (hrest : Undigited rest) (hpoint : ∀ c ∈ rest.head?, c ≠ '.') :
    fractionPart (fraction ++ rest) = some (fraction, rest) := by
  cases h with
  | none =>
    cases rest with
    | nil => rfl
    | cons c cs => simp [fractionPart, hpoint c rfl]
  | some h => simp [fractionPart, digits_append h hrest]

theorem of_fractionPart {cs fraction rest : List Char}
    (h : fractionPart cs = some (fraction, rest)) : cs = fraction ++ rest ∧ IsFraction fraction := by
  unfold fractionPart at h
  split at h
  · obtain ⟨⟨ds, rest'⟩, hdigits, heq⟩ := Option.map_eq_some_iff.mp h
    cases heq
    obtain ⟨rfl, hds⟩ := of_digits hdigits
    exact ⟨rfl, .some hds⟩
  · cases h
    exact ⟨rfl, .none⟩

/-- Digits begin with neither sign. -/
theorem Digits.unsigned {ds : List Char} (h : Digits ds) :
    ∀ c ∈ ds.head?, c ≠ '+' ∧ c ≠ '-' := by
  intro c hc
  have hdigit := h.all c (List.mem_of_mem_head? hc)
  constructor
  · rintro rfl
    exact absurd hdigit (by decide)
  · rintro rfl
    exact absurd hdigit (by decide)

theorem exponentPart_append {exponent rest : List Char} (h : IsExponent exponent)
    (hrest : Stop rest) : exponentPart (exponent ++ rest) = some (exponent, rest) := by
  cases h with
  | none =>
    cases rest with
    | nil => rfl
    | cons c cs =>
      obtain ⟨-, -, he, hE⟩ := hrest c rfl
      simp [exponentPart, he, hE]
  | @some e sign ds he hsign h =>
    have hdigits := digits_append h fun c hc => (hrest c hc).1
    obtain ⟨d, ds, rfl⟩ := List.exists_cons_of_ne_nil h.some
    obtain ⟨hplus, hminus⟩ := h.unsigned d rfl
    rw [List.cons_append] at hdigits
    rcases he with rfl | rfl <;> rcases hsign with rfl | rfl | rfl <;>
      simp [exponentPart, hplus, hminus, hdigits]

theorem of_exponentPart {cs exponent rest : List Char}
    (h : exponentPart cs = some (exponent, rest)) : cs = exponent ++ rest ∧ IsExponent exponent := by
  unfold exponentPart at h
  split at h
  case h_7 =>
    cases h
    exact ⟨rfl, .none⟩
  all_goals
    obtain ⟨⟨ds, rest'⟩, hdigits, heq⟩ := Option.map_eq_some_iff.mp h
    cases heq
    obtain ⟨rfl, hds⟩ := of_digits hdigits
    refine ⟨rfl, ?_⟩
  · exact .some (.inl rfl) (.inr (.inl rfl)) hds
  · exact .some (.inl rfl) (.inr (.inr rfl)) hds
  · exact .some (.inl rfl) (.inl rfl) hds
  · exact .some (.inr rfl) (.inr (.inl rfl)) hds
  · exact .some (.inr rfl) (.inr (.inr rfl)) hds
  · exact .some (.inr rfl) (.inl rfl) hds

theorem IsExponent.follows {exponent rest : List Char} (h : IsExponent exponent)
    (hrest : Stop rest) : ∀ c ∈ (exponent ++ rest).head?, isDigit c = false ∧ c ≠ '.' := by
  cases h with
  | none => exact fun c hc => ⟨(hrest c hc).1, (hrest c hc).2.1⟩
  | some he hsign h =>
    intro c hc
    cases hc
    rcases he with rfl | rfl <;> decide

theorem IsFraction.follows {fraction rest : List Char} (h : IsFraction fraction)
    (hrest : Undigited rest) : Undigited (fraction ++ rest) := by
  cases h with
  | none => exact hrest
  | some h =>
    intro c hc
    cases hc
    decide

/-- The text of a number once its sign is read. -/
def unsignedText (cs : List Char) : Option (List Char × List Char) := do
  let (whole, cs) ← wholePart cs
  let (fraction, cs) ← fractionPart cs
  let (exponent, cs) ← exponentPart cs
  return (whole ++ fraction ++ exponent, cs)

theorem numberText_minus (cs : List Char) :
    numberText ('-' :: cs) = (unsignedText cs).map fun p => ('-' :: p.1, p.2) := by
  simp only [numberText, unsignedText, Option.bind_eq_bind]
  cases wholePart cs with
  | none => rfl
  | some whole =>
    cases hfraction : fractionPart whole.2 with
    | none => simp [hfraction]
    | some fraction => cases hexponent : exponentPart fraction.2 <;> simp [hfraction, hexponent]

theorem numberText_plain {cs : List Char} (h : ∀ c ∈ cs.head?, c ≠ '-') :
    numberText cs = unsignedText cs := by
  cases cs with
  | nil => rfl
  | cons c cs =>
    have hc : c ≠ '-' := h c rfl
    simp [numberText, unsignedText, hc]

theorem unsignedText_append {whole fraction exponent rest : List Char} (hwhole : IsWhole whole)
    (hfraction : IsFraction fraction) (hexponent : IsExponent exponent) (hrest : Stop rest) :
    unsignedText (whole ++ fraction ++ exponent ++ rest) =
      some (whole ++ fraction ++ exponent, rest) := by
  have hfollows := hexponent.follows hrest
  have hundigited : Undigited (exponent ++ rest) := fun c hc => (hfollows c hc).1
  simp only [unsignedText, List.append_assoc, wholePart_append hwhole (hfraction.follows hundigited),
    fractionPart_append hfraction hundigited fun c hc => (hfollows c hc).2,
    exponentPart_append hexponent hrest, Option.bind_eq_bind, Option.bind_some, Option.pure_def]

/-- A number is read as far as it goes. -/
theorem numberText_append {spelling rest : List Char} (h : IsNumber spelling) (hrest : Stop rest) :
    numberText (spelling ++ rest) = some (spelling, rest) := by
  obtain @⟨sign, whole, fraction, exponent, hsign, hwhole, hfraction, hexponent⟩ := h
  have hunsigned := unsignedText_append hwhole hfraction hexponent hrest
  rcases hsign with rfl | rfl
  · have hplain : ∀ c ∈ (whole ++ fraction ++ exponent ++ rest).head?, c ≠ '-' := by
      intro c hc
      obtain ⟨d, ds, rfl⟩ := List.exists_cons_of_ne_nil hwhole.digits.some
      cases hc
      exact (hwhole.digits.unsigned _ rfl).2
    rw [List.nil_append, numberText_plain hplain, hunsigned]
  · have hminus : ['-'] ++ whole ++ fraction ++ exponent ++ rest =
        '-' :: (whole ++ fraction ++ exponent ++ rest) := by simp
    rw [hminus, numberText_minus, hunsigned]
    simp

theorem of_unsignedText {cs spelling rest : List Char}
    (h : unsignedText cs = some (spelling, rest)) : cs = spelling ++ rest ∧
      ∀ sign, sign = [] ∨ sign = ['-'] → IsNumber (sign ++ spelling) := by
  simp only [unsignedText, Option.bind_eq_bind, Option.bind_eq_some_iff, Option.pure_def,
    Option.some.injEq, Prod.mk.injEq] at h
  obtain ⟨⟨whole, cs₁⟩, hw, ⟨fraction, cs₂⟩, hf, ⟨exponent, cs₃⟩, he, rfl, rfl⟩ := h
  obtain ⟨rfl, hwhole⟩ := of_wholePart hw
  obtain ⟨rfl, hfraction⟩ := of_fractionPart hf
  obtain ⟨rfl, hexponent⟩ := of_exponentPart he
  refine ⟨by simp, fun sign hsign => ?_⟩
  have hnumber := IsNumber.parts hsign hwhole hfraction hexponent
  simpa using hnumber

theorem of_numberText {cs spelling rest : List Char} (h : numberText cs = some (spelling, rest)) :
    cs = spelling ++ rest ∧ IsNumber spelling := by
  by_cases hminus : ∃ ds, cs = '-' :: ds
  · obtain ⟨ds, rfl⟩ := hminus
    rw [numberText_minus] at h
    obtain ⟨⟨spelling', rest'⟩, hunsigned, heq⟩ := Option.map_eq_some_iff.mp h
    cases heq
    obtain ⟨rfl, hnumber⟩ := of_unsignedText hunsigned
    exact ⟨rfl, hnumber ['-'] (.inr rfl)⟩
  · have hplain : ∀ c ∈ cs.head?, c ≠ '-' := by
      rintro c hc rfl
      exact hminus ⟨cs.tail, (List.cons_head?_tail hc).symm⟩
    rw [numberText_plain hplain] at h
    obtain ⟨hcs, hnumber⟩ := of_unsignedText h
    exact ⟨hcs, hnumber [] (.inl rfl)⟩

theorem digit_value {c : Char} (hc : isDigit c = true) :
    c.toNat - '0'.toNat < 10 ∧ Nat.toDigits 10 (c.toNat - '0'.toNat) = [c] := by
  have hbounds : 48 ≤ c.toNat ∧ c.toNat ≤ 57 := by
    simpa [isDigit, Char.le_def, UInt32.le_iff_toNat_le] using hc
  have hzero : '0'.toNat = 48 := rfl
  have hall : ∀ k < 10, Nat.toDigits 10 k = [Char.ofNat (k + 48)] := by decide
  refine ⟨by omega, ?_⟩
  rw [hall _ (by omega), hzero, Nat.sub_add_cancel hbounds.1, Char.ofNat_toNat]

theorem digit_positive {c : Char} (hc : isDigit c = true) (hzero : c ≠ '0') :
    0 < c.toNat - '0'.toNat := by
  refine Nat.pos_of_ne_zero fun hnone => hzero ?_
  have hdigits := (digit_value hc).2
  rw [hnone] at hdigits
  exact (List.cons.inj hdigits).1.symm

/-- A number that is spelt without sign, fraction and exponent is spelt by its digits. -/
theorem IsWhole.toDigits {cs : List Char} (h : IsWhole cs) :
    Nat.toDigits 10 (Nat.ofDigitChars 10 cs 0) = cs := by
  cases h with
  | zero => decide
  | @more c ds hc hzero h =>
    -- The digits so far make a number that is not zero, so that the next one is put behind them.
    have hmore : Nat.toDigits 10 (Nat.ofDigitChars 10 (c :: ds) 0) = c :: ds ∧
        0 < Nat.ofDigitChars 10 (c :: ds) 0 := by
      induction ds using List.reverseRecOn with
      | nil =>
        have hone : Nat.ofDigitChars 10 [c] 0 = c.toNat - '0'.toNat := by
          rw [Nat.ofDigitChars_cons, Nat.ofDigitChars_nil, Nat.mul_zero, Nat.zero_add]
        rw [hone]
        exact ⟨(digit_value hc).2, digit_positive hc hzero⟩
      | append_singleton ds d ih =>
        obtain ⟨hds, hd⟩ := List.forall_mem_append.mp h
        obtain ⟨hdigits, hpos⟩ := ih hds
        obtain ⟨hlt, hdigit⟩ := digit_value (hd d List.mem_cons_self)
        have hnext : Nat.ofDigitChars 10 (c :: (ds ++ [d])) 0 =
            10 * Nat.ofDigitChars 10 (c :: ds) 0 + (d.toNat - '0'.toNat) := by
          rw [← List.cons_append, Nat.ofDigitChars_append, Nat.ofDigitChars_cons, Nat.ofDigitChars_nil]
        rw [hnext, ← Nat.toDigits_append_toDigits (by decide) hpos hlt, hdigits, hdigit]
        exact ⟨rfl, by omega⟩
    exact hmore.1

/-- A number that is spelt with digits alone is whole. -/
theorem IsNumber.whole {cs : List Char} (h : IsNumber cs) (hdigits : ∀ c ∈ cs, isDigit c = true) :
    IsWhole cs := by
  obtain @⟨sign, whole, fraction, exponent, hsign, hwhole, hfraction, hexponent⟩ := h
  have hminus : isDigit '-' = false := by decide
  have hpoint : isDigit '.' = false := by decide
  have he : isDigit 'e' = false := by decide
  have hE : isDigit 'E' = false := by decide
  rcases hsign with rfl | rfl
  · cases hfraction with
    | none =>
      cases hexponent with
      | none => simpa using hwhole
      | @some e sign ds hletter hsign h =>
        have hletter' := hdigits e (by simp)
        rcases hletter with rfl | rfl
        · exact absurd (he.symm.trans hletter') Bool.false_ne_true
        · exact absurd (hE.symm.trans hletter') Bool.false_ne_true
    | @some ds h =>
      have hpoint' := hdigits '.' (by simp)
      exact absurd (hpoint.symm.trans hpoint') Bool.false_ne_true
  · have hminus' := hdigits '-' (by simp)
    exact absurd (hminus.symm.trans hminus') Bool.false_ne_true

/-- Numbers are written without zeros before them. -/
theorem toDigits_head {n : Nat} (hn : 0 < n) : (Nat.toDigits 10 n).head? ≠ some '0' := by
  induction n using Nat.strongRecOn with
  | ind n ih =>
    by_cases hsmall : n < 10
    · have hall : ∀ k < 10, 0 < k → k.digitChar ≠ '0' := by decide
      rw [Nat.toDigits_of_lt_base hsmall]
      exact fun hzero => hall n hsmall hn (Option.some.inj hzero)
    · have hlarge : 10 ≤ n := Nat.not_lt.mp hsmall
      rw [Nat.toDigits_of_base_le (by decide) hlarge,
        List.head?_append_of_ne_nil _ Nat.toDigits_ne_nil]
      exact ih (n / 10) (by omega) (by omega)

theorem isWhole_toDigits (n : Nat) : IsWhole (Nat.toDigits 10 n) := by
  rcases Nat.eq_zero_or_pos n with rfl | hn
  · exact .zero
  · have hdigits : ∀ c ∈ Nat.toDigits 10 n, isDigit c = true :=
      fun c hc => Nat.isDigit_of_mem_toDigits (by decide) (by decide) hc
    have hhead := toDigits_head hn
    obtain ⟨c, ds, heq⟩ := List.exists_cons_of_ne_nil (Nat.toDigits_ne_nil (n := n) (b := 10))
    rw [heq] at hdigits hhead ⊢
    obtain ⟨hc, hds⟩ := List.forall_mem_cons.mp hdigits
    exact .more hc (fun hzero => hhead (congrArg some hzero)) hds

theorem isNumber_toDigits (n : Nat) : IsNumber (Nat.toDigits 10 n) := by
  have hnumber := IsNumber.parts (.inl rfl) (isWhole_toDigits n) .none .none
  simpa using hnumber

/-- The characters that can be escaped by one letter. -/
def shortEscape : Char → Option Char
  | '"' => some '"'
  | '\\' => some '\\'
  | '/' => some '/'
  | 'b' => some '\x08'
  | 'f' => some '\x0c'
  | 'n' => some '\n'
  | 'r' => some '\r'
  | 't' => some '\t'
  | _ => none

/-- What stands between the quotes of a string, and the letters it is. -/
inductive Lettered : List Char → List Letter → Prop where
  | done : Lettered [] []
  | char {c : Char} {cs : List Char} {ls : List Letter} (hquote : c ≠ '"') (hback : c ≠ '\\')
    (hcontrol : 0x20 ≤ c.toNat) (rest : Lettered cs ls) : Lettered (c :: cs) (.char c :: ls)
  | short {e c : Char} {cs : List Char} {ls : List Letter} (h : shortEscape e = some c)
    (rest : Lettered cs ls) : Lettered ('\\' :: e :: cs) (.char c :: ls)
  | unit {a b c d : Char} {n : Nat} {cs : List Char} {ls : List Letter}
    (h : hexUnit a b c d = some n) (rest : Lettered cs ls) :
    Lettered ('\\' :: 'u' :: a :: b :: c :: d :: cs) (.unit n :: ls)

theorem letters_char {c : Char} (hquote : c ≠ '"') (hback : c ≠ '\\') (hcontrol : 0x20 ≤ c.toNat)
    (cs : List Char) : letters (c :: cs) = (letters cs).map fun p => (.char c :: p.1, p.2) := by
  have hnot : ¬c.toNat < 0x20 := Nat.not_lt.mpr hcontrol
  cases hrest : letters cs <;> simp [letters, hback, hnot, hrest]

theorem letters_short {e c : Char} (h : shortEscape e = some c) (cs : List Char) :
    letters ('\\' :: e :: cs) = (letters cs).map fun p => (.char c :: p.1, p.2) := by
  unfold shortEscape at h
  split at h <;> cases h <;> cases hrest : letters cs <;> simp [letters, hrest]

theorem letters_unit {a b c d : Char} {n : Nat} (h : hexUnit a b c d = some n) (cs : List Char) :
    letters ('\\' :: 'u' :: a :: b :: c :: d :: cs) =
      (letters cs).map fun p => (.unit n :: p.1, p.2) := by
  cases hrest : letters cs <;> simp [letters, h, hrest]

/-- Letters are read up to the quote that closes them. -/
theorem letters_append {cs : List Char} {ls : List Letter} (h : Lettered cs ls)
    (rest : List Char) : letters (cs ++ '"' :: rest) = some (ls, rest) := by
  induction h with
  | done => rfl
  | char hquote hback hcontrol _ ih =>
    rw [List.cons_append, letters_char hquote hback hcontrol, ih, Option.map_some]
  | short h _ ih => rw [List.cons_append, List.cons_append, letters_short h, ih, Option.map_some]
  | unit h _ ih => simp only [List.cons_append, letters_unit h, ih, Option.map_some]

theorem of_letters_step {l : Letter} {cs rest : List Char} {ls : List Letter}
    (h : (do
      let (ls, rest) ← letters cs
      return (l :: ls, rest)) = some (ls, rest)) :
    ∃ more, letters cs = some (more, rest) ∧ ls = l :: more := by
  obtain ⟨⟨more, rest'⟩, hmore, heq⟩ := Option.bind_eq_some_iff.mp h
  cases heq
  exact ⟨more, hmore, rfl⟩

theorem of_letters {cs rest : List Char} {ls : List Letter} (h : letters cs = some (ls, rest)) :
    ∃ body, cs = body ++ '"' :: rest ∧ Lettered body ls := by
  fun_induction letters cs generalizing ls with
  | case1 | case13 | case14 => cases h
  | case2 cs =>
    cases h
    exact ⟨[], rfl, .done⟩
  | case3 a b c d cs ih =>
    obtain ⟨n, hn, h⟩ := Option.bind_eq_some_iff.mp h
    obtain ⟨more, hmore, rfl⟩ := of_letters_step h
    obtain ⟨body, rfl, hbody⟩ := ih hmore
    exact ⟨'\\' :: 'u' :: a :: b :: c :: d :: body, rfl, .unit hn hbody⟩
  | case4 | case5 | case6 | case7 | case8 | case9 | case10 | case11 =>
    rename_i ih
    obtain ⟨more, hmore, rfl⟩ := of_letters_step h
    obtain ⟨body, rfl, hbody⟩ := ih hmore
    exact ⟨'\\' :: _ :: body, rfl, .short rfl hbody⟩
  | case12 => cases h
  | case15 c cs hquote hunit hshort hlast hcontrol ih =>
    obtain ⟨more, hmore, rfl⟩ := of_letters_step h
    obtain ⟨body, rfl, hbody⟩ := ih hmore
    have hback : c ≠ '\\' := by
      intro hc
      cases body with
      | nil => exact hshort _ _ hc rfl
      | cons e body => exact hshort _ _ hc rfl
    exact ⟨c :: body, rfl, .char hquote hback (Nat.not_lt.mp hcontrol) hbody⟩

/-- The text that letters denote. A character of the higher planes can be written as two units, of
which neither stands without the other. -/
inductive Denotes : List Letter → List Char → Prop where
  | done : Denotes [] []
  | char {c : Char} {ls : List Letter} {cs : List Char} (rest : Denotes ls cs) :
    Denotes (.char c :: ls) (c :: cs)
  | unit {n : Nat} {ls : List Letter} {cs : List Char} (hlead : isLead n = false)
    (htrail : isTrail n = false) (rest : Denotes ls cs) :
    Denotes (.unit n :: ls) (Char.ofNat n :: cs)
  | pair {a b : Nat} {ls : List Letter} {cs : List Char} (ha : isLead a = true)
    (hb : isTrail b = true) (rest : Denotes ls cs) :
    Denotes (.unit a :: .unit b :: ls)
      (Char.ofNat ((a - 0xD800) * 0x400 + (b - 0xDC00) + 0x10000) :: cs)

theorem spell_unit {n : Nat} (hlead : isLead n = false) (htrail : isTrail n = false)
    (ls : List Letter) : spell (.unit n :: ls) = (spell ls).map (Char.ofNat n :: ·) := by
  cases ls with
  | nil => simp [spell, hlead, htrail]
  | cons l ls => cases l <;> simp [spell, hlead, htrail]

theorem spell_eq_some_iff {ls : List Letter} {cs : List Char} :
    spell ls = some cs ↔ Denotes ls cs := by
  constructor
  · intro h
    fun_induction spell ls generalizing cs with
    | case1 => cases h; exact .done
    | case2 c ls ih =>
      obtain ⟨cs, hcs, rfl⟩ := Option.map_eq_some_iff.mp h
      exact .char (ih hcs)
    | case3 a b ls ha hb ih =>
      obtain ⟨cs, hcs, rfl⟩ := Option.map_eq_some_iff.mp h
      exact .pair ha hb (ih hcs)
    | case4 | case5 | case7 => cases h
    | case6 a b ls ha ha' ih =>
      obtain ⟨cs, hcs, rfl⟩ := Option.map_eq_some_iff.mp h
      exact .unit (Bool.eq_false_iff.mpr ha) (Bool.eq_false_iff.mpr ha') (ih hcs)
    | case8 a ls _ ha ih =>
      obtain ⟨cs, hcs, rfl⟩ := Option.map_eq_some_iff.mp h
      rw [Bool.or_eq_true, not_or, Bool.not_eq_true, Bool.not_eq_true] at ha
      exact .unit ha.1 ha.2 (ih hcs)
  · intro h
    induction h with
    | done => rfl
    | char _ ih => simp [spell, ih]
    | unit hlead htrail _ ih => rw [spell_unit hlead htrail, ih, Option.map_some]
    | pair ha hb _ ih => simp [spell, ha, hb, ih]

/-- The letter that is written for a character. -/
def letterOf (c : Char) : Letter :=
  if c.toNat < 0x20 ∧ c ∉ ['\x08', '\x0c', '\n', '\r', '\t'] then .unit c.toNat else .char c

theorem hexUnit_control {n : Nat} (h : n < 0x20) :
    hexUnit '0' '0' (hexDigit (n / 16)) (hexDigit (n % 16)) = some n := by
  have hall : ∀ n < 0x20, hexUnit '0' '0' (hexDigit (n / 16)) (hexDigit (n % 16)) = some n := by
    decide
  exact hall n h

theorem lettered_escape (c : Char) {cs : List Char} {ls : List Letter} (rest : Lettered cs ls) :
    Lettered (escape c ++ cs) (letterOf c :: ls) := by
  unfold escape
  split_ifs with hquote hback hb hf hn hr ht hcontrol
  · subst hquote
    exact .short rfl rest
  · subst hback
    exact .short rfl rest
  · subst hb
    exact .short rfl rest
  · subst hf
    exact .short rfl rest
  · subst hn
    exact .short rfl rest
  · subst hr
    exact .short rfl rest
  · subst ht
    exact .short rfl rest
  · have hletter : letterOf c = .unit c.toNat := by
      simp [letterOf, hcontrol, hb, hf, hn, hr, ht]
    rw [hletter]
    exact .unit (hexUnit_control hcontrol) rest
  · have hletter : letterOf c = .char c := by simp [letterOf, hcontrol]
    rw [hletter]
    exact .char hquote hback (Nat.not_lt.mp hcontrol) rest

theorem lettered_flatMap (cs : List Char) : Lettered (cs.flatMap escape) (cs.map letterOf) := by
  induction cs with
  | nil => exact .done
  | cons c cs ih => exact lettered_escape c ih

theorem denotes_letters (cs : List Char) : Denotes (cs.map letterOf) cs := by
  induction cs with
  | nil => exact .done
  | cons c cs ih =>
    rw [List.map_cons, letterOf]
    split
    · next h =>
      have hplane : ∀ n < 0x20, isLead n = false ∧ isTrail n = false := by decide
      obtain ⟨hlead, htrail⟩ := hplane c.toNat h.1
      have hunit := Denotes.unit hlead htrail ih
      rwa [Char.ofNat_toNat] at hunit
    · exact .char ih

/-- A text that is quoted is a string that denotes it. -/
theorem spell_letters (s : String) : (spell (s.toList.map letterOf)).map String.ofList = some s := by
  rw [spell_eq_some_iff.mpr (denotes_letters s.toList), Option.map_some, String.ofList_toList]

end Regression.Json
