import Regression.Path

namespace Regression

/-- Why the system refuses an operation. -/
inductive Fault where
  | notFound
  | notRunnable
  | denied
  | alreadyThere
  | notDirectory
  | isDirectory
  | noSpace
  | nameTooLong
  | notEmpty
  | linkLoop
  | zeroInName
  | zeroInCommand
  | notText
  /-- A fault of a temporary directory, which says where it arose. -/
  | named (fault : Fault) (path : Path)
  deriving DecidableEq, Repr

namespace Fault

/-- A fault in words. -/
def words : Fault → String
  | notFound => "No such file or directory"
  | notRunnable => "Exec format error"
  | denied => "Permission denied"
  | alreadyThere => "File exists"
  | notDirectory => "Not a directory"
  | isDirectory => "Is a directory"
  | noSpace => "No space left on device"
  | nameTooLong => "File name too long"
  | notEmpty => "Directory not empty"
  | linkLoop => "Too many levels of symbolic links"
  | zeroInName => "file name contained an unexpected NUL byte"
  | zeroInCommand => "nul byte found in provided data"
  | notText => "stream did not contain valid UTF-8"
  | named fault _ => fault.words

/-- The system's number for a fault. Faults that are found before the system is asked have none. -/
def number? : Fault → Option Nat
  | notFound => some 2
  | notRunnable => some 8
  | denied => some 13
  | alreadyThere => some 17
  | notDirectory => some 20
  | isDirectory => some 21
  | noSpace => some 28
  | nameTooLong => some 36
  | notEmpty => some 39
  | linkLoop => some 40
  | zeroInName | zeroInCommand | notText => none
  | named fault _ => fault.number?

def message : Fault → String
  | named fault path => fault.message ++ " at path \"" ++ path.text ++ "\""
  | fault =>
    match fault.number? with
    | some n => fault.words ++ " (os error " ++ toString n ++ ")"
    | none => fault.words

end Fault

end Regression
