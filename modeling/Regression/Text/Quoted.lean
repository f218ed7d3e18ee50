import Regression.Text.Utf8

/-!
File names as the system's small programs show them in complaints: between quotes, with codes for
what cannot be printed. Most of them spell a name as the shell would read it, and some leave the
quotes out where a name is one plain word.
-/

namespace Regression.Text

def isPrintable (b : UInt8) : Bool := 0x20 ≤ b && b < 0x7F

/-- Characters that stand for something else wherever the shell meets them. -/
def shellMarks : Bytes := encode " !\"$&'()*;<=>?[\\^`|"

/-- The number sign and the tilde, which count only at the start of a word. -/
def startMarks : Bytes := [0x23, 0x7E]

/-- The braces, which count only where they stand alone. -/
def loneMarks : List Bytes := [[0x7B], [0x7D]]

/-- Whether a name is shown between quotes where quotes are left out if possible. A colon would run
into the text that follows. -/
def needsQuotes (name : Bytes) : Bool :=
  name.isEmpty || loneMarks.contains name || name.head?.any startMarks.contains ||
    name.any fun b => !isPrintable b || shellMarks.contains b || b = 0x3A

def singleQuote : UInt8 := 0x27

/-- Characters that mean themselves between double quotes as well as between single ones. -/
def suitsDoubleQuotes (name : Bytes) : Bool :=
  let body := if name.head?.any startMarks.contains then name.tail else name
  loneMarks.contains name || body.all fun b =>
    isPrintable b && !startMarks.contains b && !loneMarks.contains [b] &&
      (b = singleQuote || b = 0x20 || !shellMarks.contains b)

/-- What follows a backslash in a code: a letter, or three digits to the base of eight. -/
def codeOf (b : UInt8) : List Char :=
  match [(7, 'a'), (8, 'b'), (9, 't'), (10, 'n'), (11, 'v'), (12, 'f'), (13, 'r')].lookup b with
  | some c => [c]
  | none => [b.toNat / 64, b.toNat / 8 % 8, b.toNat % 8].map fun d => Char.ofNat (48 + d)

/-- The rest of a name after the opening quote, up to the closing one. Codes stand in a quotation of
their own, and `coded` tells that one is open. A single quote stands outside, after a backslash. -/
def quotedFrom : Bool → Bytes → List Char
  | _, [] => ['\'']
  | coded, b :: bs =>
    if b = singleQuote then ['\'', '\\', '\'', '\''] ++ quotedFrom false bs
    else if isPrintable b then
      (if coded then ['\'', '\''] else []) ++ Char.ofNat b.toNat :: quotedFrom false bs
    else
      (if coded then [] else ['\'', '$', '\'']) ++ '\\' :: (codeOf b ++ quotedFrom true bs)

/-- A name between quotes: double ones where a single quote in it would have to be spelled out. A
name with a single quote is gone through twice, and the second time begins as the first one ended:
where the last character needs a code, a quotation of codes counts as open. -/
def quotedName (name : String) : String :=
  let bytes := encode name
  let twice := bytes.contains singleQuote
  if twice && suitsDoubleQuotes bytes then "\"" ++ name ++ "\""
  else
    String.ofList ('\'' :: quotedFrom (twice && bytes.getLast?.any (!isPrintable ·)) bytes)

/-- A name with quotes only where it needs them. -/
def plainName (name : String) : String :=
  if needsQuotes (encode name) then quotedName name else name

/-- A name between single quotes, with a backslash before each quote and each backslash in it. -/
def escapedName (name : String) : String :=
  let letters := (encode name).flatMap fun b =>
    if b = singleQuote || b = 0x5C then ['\\', Char.ofNat b.toNat]
    else if isPrintable b then [Char.ofNat b.toNat]
    else '\\' :: codeOf b
  String.ofList ('\'' :: (letters ++ ['\'']))

end Regression.Text
