import Regression.Text.Utf8

/-!
Texts for a terminal hold control sequences beside what is seen. A sequence begins with an escape,
and its second byte tells how it ends; `visible` is a text without them.
-/

namespace Regression.Text

/-- Where a terminal stands in a text. -/
inductive Control where
  | none
  /-- After an escape. -/
  | escape
  /-- After an escape and bytes that announce a last one. -/
  | announced
  /-- In a sequence with parameters, which a letter ends. -/
  | parameters
  /-- In a message to the terminal, which a new escape ends, and a bell if it is a command. -/
  | message (bell : Bool)
  deriving DecidableEq, Repr

namespace Control

/-- Bytes that break off any sequence. -/
def cancels (b : UInt8) : Bool := b = 0x18 || b = 0x1A

def afterEscape (b : UInt8) : Control :=
  if 0x20 ≤ b && b < 0x30 then .announced
  else if b = 0x5B then .parameters
  else if b = 0x5D then .message true
  else if b = 0x50 || b = 0x58 || b = 0x5E || b = 0x5F then .message false
  else if 0x30 ≤ b && b < 0x7F then .none
  else .escape

/-- Where a byte leads that is not seen. -/
def next (s : Control) (b : UInt8) : Control :=
  if cancels b then .none
  else if b = 0x1B then .escape
  else match s with
    | none => .none
    | escape => afterEscape b
    | announced => if 0x30 ≤ b && b < 0x7F then .none else .announced
    | parameters => if 0x40 ≤ b && b < 0x7F then .none else .parameters
    | message bell => if bell && b = 0x07 then .none else .message bell

/-- White space that moves the cursor. -/
def isSpacing (b : UInt8) : Bool := b = 0x09 || b = 0x0A || b = 0x0C || b = 0x0D

/-- Bytes inside a character of several bytes, which are always seen. -/
def continues (b : UInt8) : Bool := 0x80 ≤ b && b < 0xC0

def isSeen (s : Control) (b : UInt8) : Bool :=
  continues b ||
    match s with
    | none => isSpacing b || (0x20 ≤ b && b ≠ 0x7F)
    | message _ => false
    | _ => isSpacing b

/-- What is seen of a text. A byte that is seen ends the sequence it stands in. -/
def seenFrom : Control → Bytes → Bytes
  | _, [] => []
  | s, b :: bs => if s.isSeen b then b :: seenFrom .none bs else seenFrom (s.next b) bs

end Control

def visible (s : String) : String := decodeLossy (Control.seenFrom .none (encode s))

/-- A text in a style of its own, which ends with it. -/
def styled (style s : String) : String := "\x1b[" ++ style ++ "m" ++ s ++ "\x1b[0m"

/-- What was given and is wrong, in yellow. -/
def marked (s : String) : String := styled "33" s

/-- What is to be typed as it stands, in bold. -/
def strong (s : String) : String := styled "1" s

end Regression.Text
