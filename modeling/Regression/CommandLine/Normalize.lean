import Regression.CommandLine.Option
import Regression.Text.Lines

namespace Regression.CommandLine

/-- An argument that is spelt like an option: the name, and whether its value stands with it. -/
structure Spelling where
  name : String
  inline : Bool
  deriving DecidableEq, Repr

def afterDashes : List Char → Option (List Char)
  | '-' :: '-' :: cs => some cs
  | '-' :: c :: d :: cs => some (c :: d :: cs)
  | _ => none

/-- One dash makes an option only of a name of two characters or more. -/
def spelling? (arg : String) : Option Spelling :=
  (afterDashes arg.toList).map fun cs =>
    match Text.cutAt '=' cs with
    | some (name, _) => ⟨String.ofList name, true⟩
    | none => ⟨String.ofList cs, false⟩

/-- What the next argument is taken for. -/
inductive Expecting where
  | argument
  | value
  | target
  deriving DecidableEq, Repr

def doubled (arg : String) : String :=
  if Text.startsWith arg "--" then arg else "-" ++ arg

/-- One argument and what it makes of the next. -/
def normalizeOne (expecting : Expecting) (arg : String) : String × Expecting :=
  match expecting with
  | .value => (arg, .argument)
  | .target => (arg, .target)
  | .argument =>
    if arg = "--" then (arg, .target)
    else match (spelling? arg).bind fun s => (Opt.ofName? s.name).map fun o => (s, o) with
      | some (s, o) =>
        (doubled arg, if o.takesValue && !s.inline then .value else .argument)
      | none => (arg, .argument)

def normalizeFrom (expecting : Expecting) : List String → List String
  | [] => []
  | arg :: args =>
    let (arg, next) := normalizeOne expecting arg
    arg :: normalizeFrom next args

/-- Writes every known option with two dashes. The program's name, the value of an option and what
follows `--` are left alone. -/
def normalize : List String → List String
  | [] => []
  | program :: args => program :: normalizeFrom .argument args

end Regression.CommandLine
