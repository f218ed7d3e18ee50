import Regression.Settings
import Regression.Text.Lines

namespace Regression

/-- What a line of a log reports. -/
inductive Category where
  | error
  | suppression
  | future
  | warning
  | success
  deriving DecidableEq, Repr

/-- What a line counts as besides. -/
inductive Tag where
  | passingSuppression
  | passingFuture
  | skippedStdin
  deriving DecidableEq, Repr

def SuccessMarker.opening : SuccessMarker → String
  | matching => "[Success matching"
  | compiling => "[Success compiling"
  | generating => "[Success generating"

namespace Category

/-- How a line of the category begins. -/
def opening (marker : SuccessMarker) : Category → String
  | error => "[Error"
  | suppression => "Suppress"
  | future => "Future"
  | warning => "[Warning"
  | success => marker.opening

/-- The order in which categories are tried. -/
def all : List Category := [error, suppression, future, warning, success]

def holds (marker : SuccessMarker) (line : String) (c : Category) : Bool :=
  Text.startsWith line (c.opening marker)

def of (marker : SuccessMarker) (line : String) : Option Category :=
  all.find? (holds marker line)

end Category

namespace Tag

def all : List Tag := [passingSuppression, passingFuture, skippedStdin]

/-- A line that begins with `opening` and goes on, before any newline, to the success marker. -/
def passes (marker : SuccessMarker) (opening line : String) : Bool :=
  Text.startsWith line opening &&
    Text.occursIn marker.opening.toList
      ((line.toList.drop opening.length).takeWhile (· ≠ '\n'))

/-- Between the two parts of the line any one character may stand, but no newline. -/
def skipsStdin (line : String) : Bool :=
  let opening := "[Skipping test with "
  Text.startsWith line opening &&
    match line.toList.drop opening.length with
    | c :: rest => c ≠ '\n' && "stdin input".toList.isPrefixOf rest
    | [] => false

def holds (marker : SuccessMarker) (line : String) : Tag → Bool
  | passingSuppression => passes marker "Suppress" line
  | passingFuture => passes marker "Future" line
  | skippedStdin => skipsStdin line

def of (marker : SuccessMarker) (line : String) : Option Tag :=
  all.find? (holds marker line)

end Tag

/-- The counts and the text blocks of a run. -/
structure Summary where
  successes : Nat := 0
  failures : Nat := 0
  futures : Nat := 0
  warnings : Nat := 0
  passingSuppressions : Nat := 0
  passingFutures : Nat := 0
  skippedStdin : Nat := 0
  failureLines : String := ""
  suppressionLines : String := ""
  futureLines : String := ""
  warningLines : String := ""
  deriving DecidableEq, Repr

namespace Summary

def addCategory (s : Summary) (line : String) : Option Category → Summary
  | some .error =>
    { s with failures := s.failures + 1, failureLines := s.failureLines ++ line ++ "\n" }
  | some .suppression => { s with suppressionLines := s.suppressionLines ++ line ++ "\n" }
  | some .future =>
    { s with futures := s.futures + 1, futureLines := s.futureLines ++ line ++ "\n" }
  | some .warning =>
    { s with warnings := s.warnings + 1, warningLines := s.warningLines ++ line ++ "\n" }
  | some .success => { s with successes := s.successes + 1 }
  | none => s

def addTag (s : Summary) : Option Tag → Summary
  | some .passingSuppression => { s with passingSuppressions := s.passingSuppressions + 1 }
  | some .passingFuture => { s with passingFutures := s.passingFutures + 1 }
  | some .skippedStdin => { s with skippedStdin := s.skippedStdin + 1 }
  | none => s

def addLine (marker : SuccessMarker) (s : Summary) (line : String) : Summary :=
  (s.addCategory line (Category.of marker line)).addTag (Tag.of marker line)

/-- The summary of a whole log. -/
def ofLog (marker : SuccessMarker) (log : String) : Summary :=
  (Text.lines log).foldl (addLine marker) {}

def hasFailures (s : Summary) : Bool := 0 < s.failures

/-- The block that closes a log. -/
def render (s : Summary) (date : String) : String :=
  "[Test Summary - " ++ date ++ "]\n" ++ s.failureLines ++ s.suppressionLines ++ s.futureLines ++
    s.warningLines ++ "[Summary: #Successes = " ++ toString s.successes ++ " | #Failures = " ++
    toString s.failures ++ " | #Futures = " ++ toString s.futures ++ " | #Warnings = " ++
    toString s.warnings ++ " ]\n[Summary: #Passing Suppressions = " ++
    toString s.passingSuppressions ++ " | #Passing Futures = " ++ toString s.passingFutures ++
    " ]\n[END]\n"

def counts (s : Summary) : String :=
  toString s.successes ++ " successes, " ++ toString s.failures ++ " failures, " ++
    toString s.futures ++ " futures, " ++ toString s.warnings ++ " warnings"

end Summary

end Regression
