namespace Regression.Text

abbrev Bytes := List UInt8

def encode (s : String) : Bytes :=
  s.toList.flatMap String.utf8EncodeChar

/-- What decoding finds: a character, or a longest run of bytes that begins one and breaks off. -/
inductive Piece where
  | char (c : Char)
  | broken
  deriving DecidableEq, Repr

/-- A character whose first bytes are read: their value, how many bytes are left, and the range
of the next one. The range of a second byte keeps out overlong forms and surrogates. -/
structure Begun where
  value : Nat
  left : Nat
  low : UInt8 := 0x80
  high : UInt8 := 0xBF
  deriving DecidableEq, Repr

inductive First where
  | piece (p : Piece)
  | begun (s : Begun)

def first (b : UInt8) : First :=
  if b < 0x80 then .piece (.char (Char.ofNat b.toNat))
  else if b < 0xC2 then .piece .broken
  else if b < 0xE0 then .begun { value := b.toNat - 0xC0, left := 1 }
  else if b = 0xE0 then .begun { value := 0, left := 2, low := 0xA0 }
  else if b = 0xED then .begun { value := 0xD, left := 2, high := 0x9F }
  else if b < 0xF0 then .begun { value := b.toNat - 0xE0, left := 2 }
  else if b = 0xF0 then .begun { value := 0, left := 3, low := 0x90 }
  else if b < 0xF4 then .begun { value := b.toNat - 0xF0, left := 3 }
  else if b = 0xF4 then .begun { value := 4, left := 3, high := 0x8F }
  else .piece .broken

/-- A byte out of range ends the broken character before it and is itself read afresh. -/
def piecesFrom : Option Begun → Bytes → List Piece
  | none, [] => []
  | some _, [] => [.broken]
  | none, b :: bs =>
    match first b with
    | .piece p => p :: piecesFrom none bs
    | .begun s => piecesFrom (some s) bs
  | some s, b :: bs =>
    if s.low ≤ b ∧ b ≤ s.high then
      let value := s.value * 64 + (b.toNat - 0x80)
      if s.left ≤ 1 then .char (Char.ofNat value) :: piecesFrom none bs
      else piecesFrom (some { value, left := s.left - 1 }) bs
    else
      .broken :: match first b with
        | .piece p => p :: piecesFrom none bs
        | .begun s => piecesFrom (some s) bs

def pieces (bs : Bytes) : List Piece :=
  piecesFrom none bs

/-- The character that is shown for a piece. -/
def Piece.shown : Piece → Char
  | .char c => c
  | .broken => '\uFFFD'

def Piece.char? : Piece → Option Char
  | .char c => some c
  | .broken => none

/-- Decoding that shows every broken character as U+FFFD. -/
def decodeLossy (bs : Bytes) : String :=
  String.ofList ((pieces bs).map Piece.shown)

/-- Decoding of well-formed bytes only. -/
def decode? (bs : Bytes) : Option String :=
  ((pieces bs).mapM Piece.char?).map String.ofList

end Regression.Text
