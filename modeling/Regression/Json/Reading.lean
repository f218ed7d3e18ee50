import Regression.Json

namespace Regression.Json

def isSpace (c : Char) : Bool :=
  c = ' ' || c = '\n' || c = '\t' || c = '\r'

def skip (cs : List Char) : List Char :=
  cs.dropWhile isSpace

def hexValue (c : Char) : Option Nat :=
  if '0' ≤ c ∧ c ≤ '9' then some (c.toNat - 48)
  else if 'a' ≤ c ∧ c ≤ 'f' then some (c.toNat - 87)
  else if 'A' ≤ c ∧ c ≤ 'F' then some (c.toNat - 55)
  else none

def hexUnit (a b c d : Char) : Option Nat := do
  return (← hexValue a) * 4096 + (← hexValue b) * 256 + (← hexValue c) * 16 + (← hexValue d)

/-- What stands in a string literal: a character, or a UTF-16 unit written by its number. -/
inductive Letter where
  | char (c : Char)
  | unit (n : Nat)

/-- The letters of a literal up to its closing quote, and the text after it. -/
def letters : List Char → Option (List Letter × List Char)
  | [] => none
  | '"' :: cs => some ([], cs)
  | '\\' :: 'u' :: a :: b :: c :: d :: cs => do
    let n ← hexUnit a b c d
    let (ls, rest) ← letters cs
    return (.unit n :: ls, rest)
  | '\\' :: e :: cs => do
    let c ← match e with
      | '"' => some '"'
      | '\\' => some '\\'
      | '/' => some '/'
      | 'b' => some '\x08'
      | 'f' => some '\x0c'
      | 'n' => some '\n'
      | 'r' => some '\r'
      | 't' => some '\t'
      | _ => none
    let (ls, rest) ← letters cs
    return (.char c :: ls, rest)
  | '\\' :: [] => none
  | c :: cs =>
    if c.toNat < 0x20 then none
    else do
      let (ls, rest) ← letters cs
      return (.char c :: ls, rest)

def isLead (n : Nat) : Bool := 0xD800 ≤ n && n < 0xDC00

def isTrail (n : Nat) : Bool := 0xDC00 ≤ n && n < 0xE000

/-- The text that letters denote; half of a surrogate pair alone denotes none. -/
def spell : List Letter → Option (List Char)
  | [] => some []
  | .char c :: ls => (spell ls).map (c :: ·)
  | .unit a :: .unit b :: ls =>
    if isLead a then
      if isTrail b then
        (spell ls).map (Char.ofNat ((a - 0xD800) * 0x400 + (b - 0xDC00) + 0x10000) :: ·)
      else none
    else if isTrail a then none
    else (spell (.unit b :: ls)).map (Char.ofNat a :: ·)
  | .unit a :: ls =>
    if isLead a || isTrail a then none else (spell ls).map (Char.ofNat a :: ·)

def isDigit (c : Char) : Bool := '0' ≤ c && c ≤ '9'

/-- At least one digit, and all that follow. -/
def digits (cs : List Char) : Option (List Char × List Char) :=
  let (ds, rest) := cs.span isDigit
  if ds.isEmpty then none else some (ds, rest)

/-- The whole part of a number, which starts with a zero only if it is zero. -/
def wholePart : List Char → Option (List Char × List Char)
  | '0' :: c :: cs => if isDigit c then none else some (['0'], c :: cs)
  | cs => digits cs

def fractionPart : List Char → Option (List Char × List Char)
  | '.' :: cs => (digits cs).map fun (ds, rest) => ('.' :: ds, rest)
  | cs => some ([], cs)

def exponentPart : List Char → Option (List Char × List Char)
  | 'e' :: '+' :: cs => (digits cs).map fun (ds, rest) => ('e' :: '+' :: ds, rest)
  | 'e' :: '-' :: cs => (digits cs).map fun (ds, rest) => ('e' :: '-' :: ds, rest)
  | 'e' :: cs => (digits cs).map fun (ds, rest) => ('e' :: ds, rest)
  | 'E' :: '+' :: cs => (digits cs).map fun (ds, rest) => ('E' :: '+' :: ds, rest)
  | 'E' :: '-' :: cs => (digits cs).map fun (ds, rest) => ('E' :: '-' :: ds, rest)
  | 'E' :: cs => (digits cs).map fun (ds, rest) => ('E' :: ds, rest)
  | cs => some ([], cs)

def numberText (cs : List Char) : Option (List Char × List Char) := do
  let (sign, cs) := match cs with
    | '-' :: cs => (['-'], cs)
    | cs => ([], cs)
  let (whole, cs) ← wholePart cs
  let (fraction, cs) ← fractionPart cs
  let (exponent, cs) ← exponentPart cs
  return (sign ++ whole ++ fraction ++ exponent, cs)

mutual

/-- The value at the start of a text and the text after it, for texts of at most `depth`
characters. -/
def value (depth : Nat) (cs : List Char) : Option (Json × List Char) :=
  match depth with
  | 0 => none
  | depth + 1 =>
    match skip cs with
    | 'n' :: 'u' :: 'l' :: 'l' :: cs => some (.null, cs)
    | 't' :: 'r' :: 'u' :: 'e' :: cs => some (.bool true, cs)
    | 'f' :: 'a' :: 'l' :: 's' :: 'e' :: cs => some (.bool false, cs)
    | '"' :: cs => do
      let (ls, cs) ← letters cs
      return (.string ((spell ls).map String.ofList), cs)
    | '[' :: cs =>
      match skip cs with
      | ']' :: cs => some (.array [], cs)
      | cs => do
        let (items, cs) ← items depth cs
        return (.array items, cs)
    | '\x7b' :: cs =>
      match skip cs with
      | '\x7d' :: cs => some (.object [], cs)
      | cs => do
        let (members, cs) ← members depth cs
        return (.object members, cs)
    | cs => do
      let (spelling, cs) ← numberText cs
      return (.number spelling, cs)

/-- One item or more, up to the closing bracket. -/
def items (depth : Nat) (cs : List Char) : Option (List Json × List Char) :=
  match depth with
  | 0 => none
  | depth + 1 => do
    let (item, cs) ← value depth cs
    match skip cs with
    | ',' :: cs => do
      let (rest, cs) ← items depth cs
      return (item :: rest, cs)
    | ']' :: cs => return ([item], cs)
    | _ => none

/-- One member or more, up to the closing brace. -/
def members (depth : Nat) (cs : List Char) : Option (List (Option String × Json) × List Char) :=
  match depth with
  | 0 => none
  | depth + 1 =>
    match skip cs with
    | '"' :: cs => do
      let (ls, cs) ← letters cs
      match skip cs with
      | ':' :: cs => do
        let (item, cs) ← value depth cs
        let member := ((spell ls).map String.ofList, item)
        match skip cs with
        | ',' :: cs => do
          let (rest, cs) ← members depth cs
          return (member :: rest, cs)
        | '\x7d' :: cs => return ([member], cs)
        | _ => none
      | _ => none
    | _ => none

end

/-- The value that a whole text denotes. -/
def ofText? (s : String) : Option Json :=
  match value (2 * s.toList.length + 2) s.toList with
  | some (json, rest) => if (skip rest).isEmpty then some json else none
  | none => none

end Regression.Json
