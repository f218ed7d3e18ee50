namespace Regression.Text

inductive NumeralFault where
  | empty
  | invalidDigit
  | tooLarge
  | tooSmall
  deriving DecidableEq, Repr

def NumeralFault.message : NumeralFault → String
  | .empty => "cannot parse integer from empty string"
  | .invalidDigit => "invalid digit found in string"
  | .tooLarge => "number too large to fit in target type"
  | .tooSmall => "number too small to fit in target type"

def digit? (c : Char) : Option Nat :=
  if '0' ≤ c ∧ c ≤ '9' then some (c.toNat - 48) else none

/-- Digits are taken from the left, and the first fault decides: a character that is no digit, or
a value past `limit`. -/
def digitsFrom (limit : Nat) (past : NumeralFault) (value : Nat) :
    List Char → Except NumeralFault Nat
  | [] => .ok value
  | c :: cs =>
    match digit? c with
    | none => .error .invalidDigit
    | some d =>
      if value * 10 + d ≤ limit then digitsFrom limit past (value * 10 + d) cs else .error past

/-- A whole number with an optional sign, from `-low` to `high`; where `low` is zero no minus sign
is read. -/
def readInt (low high : Nat) (s : String) : Except NumeralFault Int :=
  match s.toList with
  | [] => .error .empty
  | ['+'] => .error .invalidDigit
  | ['-'] => .error .invalidDigit
  | '+' :: cs => (digitsFrom high .tooLarge 0 cs).map Int.ofNat
  | '-' :: cs =>
    if low = 0 then .error .invalidDigit
    else (digitsFrom low .tooSmall 0 cs).map fun n => -Int.ofNat n
  | cs => (digitsFrom high .tooLarge 0 cs).map Int.ofNat

/-- The numbers a count may be: unsigned and of 32 bits. -/
def countLimit : Nat := 4294967295

def readCount (s : String) : Option Nat :=
  match readInt 0 countLimit s with
  | .ok n => some n.toNat
  | .error _ => none

end Regression.Text
