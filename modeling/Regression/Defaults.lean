import Regression.Json.Reading
import Regression.Settings

namespace Regression

namespace ProjectDefaults

/-- The members of a defaults file, in the order in which they are written. -/
inductive Member where
  | compopts
  | execopts
  | launchCmd
  | preexec
  | prediff
  | numLocales
  deriving DecidableEq, Repr

namespace Member

def all : List Member := [compopts, execopts, launchCmd, preexec, prediff, numLocales]

def name : Member → String
  | compopts => "compopts"
  | execopts => "execopts"
  | launchCmd => "launch_cmd"
  | preexec => "preexec"
  | prediff => "prediff"
  | numLocales => "num_locales"

def ofName? (s : String) : Option Member := all.find? fun m => m.name == s

end Member

def textOf : Json → Option String
  | .string text => text
  | _ => none

def textsOf : Json → Option (List String)
  | .array items => items.mapM textOf
  | _ => none

def optionalText : Json → Option (Option String)
  | .null => some none
  | .string (some s) => some (some s)
  | _ => none

/-- A count is written with digits alone. -/
def optionalCount : Json → Option (Option Nat)
  | .null => some none
  | .number spelling =>
    if spelling.all Json.isDigit then
      (Text.readCount (String.ofList spelling)).map some
    else none
  | _ => none

def assign (d : ProjectDefaults) (json : Json) : Member → Option ProjectDefaults
  | .compopts => (textsOf json).map fun compopts => { d with compopts }
  | .execopts => (textsOf json).map fun execopts => { d with execopts }
  | .launchCmd => (optionalText json).map fun launchCmd => { d with launchCmd }
  | .preexec => (textsOf json).map fun ps => { d with preexec := ps.map Path.mk }
  | .prediff => (textsOf json).map fun ps => { d with prediff := ps.map Path.mk }
  | .numLocales => (optionalCount json).map fun numLocales => { d with numLocales }

/-- Members may come in any order; one that is not known is passed over, one that is known may not
come twice. -/
def ofMembers (seen : List Member) (d : ProjectDefaults) :
    List (Option String × Json) → Option ProjectDefaults
  | [] => some d
  | (none, _) :: _ => none
  | (some name, json) :: rest =>
    match Member.ofName? name with
    | none => ofMembers seen d rest
    | some m =>
      if m ∈ seen then none
      else (assign d json m).bind fun d => ofMembers (m :: seen) d rest

/-- Values without names stand for the members in their order. -/
def ofItems (d : ProjectDefaults) : List Member → List Json → Option ProjectDefaults
  | _, [] => some d
  | [], _ :: _ => none
  | m :: ms, json :: rest => (assign d json m).bind fun d => ofItems d ms rest

def ofJson? : Json → Option ProjectDefaults
  | .object members => ofMembers [] {} members
  | .array items => ofItems {} Member.all items
  | _ => none

def ofText? (s : String) : Option ProjectDefaults :=
  (Json.ofText? s).bind ofJson?

def writtenTexts (texts : List String) : List Char :=
  '[' :: ([','].intercalate (texts.map Json.quote) ++ [']'])

/-- The value of a member as it is written; one that is unset or empty is left out. -/
def written (d : ProjectDefaults) : Member → Option (List Char)
  | .compopts => if d.compopts.isEmpty then none else some (writtenTexts d.compopts)
  | .execopts => if d.execopts.isEmpty then none else some (writtenTexts d.execopts)
  | .launchCmd => d.launchCmd.map Json.quote
  | .preexec => if d.preexec.isEmpty then none else some (writtenTexts (d.preexec.map (·.text)))
  | .prediff => if d.prediff.isEmpty then none else some (writtenTexts (d.prediff.map (·.text)))
  | .numLocales => d.numLocales.map fun n => (toString n).toList

def toText (d : ProjectDefaults) : String :=
  let members := Member.all.filterMap fun m =>
    (d.written m).map fun value => Json.quote m.name ++ ':' :: value
  String.ofList ('\x7b' :: ([','].intercalate members ++ ['\x7d']))

end ProjectDefaults

end Regression
