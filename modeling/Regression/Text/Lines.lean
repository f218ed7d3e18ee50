import Regression.Text.Utf8

namespace Regression.Text

/-- Lines end at a newline, and a carriage return before it belongs to the ending. A last line
without newline keeps its carriage return. -/
def lineList : List Char → List (List Char)
  | [] => []
  | '\r' :: '\n' :: cs => [] :: lineList cs
  | '\n' :: cs => [] :: lineList cs
  | c :: cs =>
    match lineList cs with
    | [] => [[c]]
    | l :: ls => (c :: l) :: ls

def lines (s : String) : List String :=
  (lineList s.toList).map String.ofList

/-- Bytes cut after every newline. -/
def rawLines : Bytes → List Bytes
  | [] => []
  | b :: bs =>
    if b = 10 then [b] :: rawLines bs
    else match rawLines bs with
      | [] => [[b]]
      | l :: ls => (b :: l) :: ls

def endsWith (s tail : String) : Bool :=
  tail.toList.isSuffixOf s.toList

def startsWith (s head : String) : Bool :=
  head.toList.isPrefixOf s.toList

def occursIn (part : List Char) : List Char → Bool
  | [] => part.isEmpty
  | c :: cs => part.isPrefixOf (c :: cs) || occursIn part cs

def contains (s part : String) : Bool :=
  occursIn part.toList s.toList

/-- A character zero ends a text that is handed to the system. -/
def hasZero (s : String) : Bool := s.toList.contains '\x00'

/-- The text before the first `mark` and the text after it. -/
def cutAt (mark : Char) : List Char → Option (List Char × List Char)
  | [] => none
  | c :: cs => if c = mark then some ([], cs) else (cutAt mark cs).map fun (a, b) => (c :: a, b)

def cut? (s : String) (mark : Char) : Option (String × String) :=
  (cutAt mark s.toList).map fun (a, b) => (String.ofList a, String.ofList b)

end Regression.Text
