import Regression.CommandLine.Choices
import Regression.CommandLine.Normalize
import Regression.Text.Terminal

namespace Regression.CommandLine

/-- Why a command line is not run. -/
inductive Refusal where
  | unknown (argument : String)
  | valueMissing (shown : String)
  | valueInvalid (shown value reason : String)
  | repeated (shown : String)
  | valueUnneeded (shown value : String)
  | help
  | version
  deriving DecidableEq, Repr

namespace Refusal

/-- The first words of a message for a terminal; help and version are answers of their own. -/
def opening : Refusal → Option String
  | unknown argument => some ("unexpected argument '" ++ Text.marked argument ++ "' found")
  | valueMissing shown =>
    some ("a value is required for '" ++ Text.strong shown ++ "' but none was supplied")
  | valueInvalid shown value reason =>
    some ("invalid value '" ++ Text.marked value ++ "' for '" ++ Text.strong shown ++ "': " ++
      reason)
  | repeated shown =>
    some ("the argument '" ++ Text.marked shown ++ "' cannot be used multiple times")
  | valueUnneeded shown value =>
    some ("unexpected value '" ++ Text.marked value ++ "' for '" ++ Text.strong shown ++
      "' found; no more were expected")
  | help => none
  | version => none

def advice : String := "\n\nFor more information, try '" ++ Text.strong "--help" ++ "'.\n"

/-- The first line of what is seen of a message. -/
def message (r : Refusal) : Option String :=
  r.opening.map fun opening =>
    (Text.lines (Text.visible ("error: " ++ opening ++ advice))).headD ""

def exitCode (r : Refusal) : Nat :=
  match r with
  | help | version => 0
  | _ => 2

end Refusal

/-- How messages show the targets. -/
def targetsShown : String := "[TESTS]..."

/-- Arguments that are read but not yet taken in: an option with or without its value, or a run of
targets. They are taken in when something else follows, or at the end. -/
inductive Pending where
  | nothing
  | option (o : Opt) (value : Option String)
  | targets (values : List String)
  deriving DecidableEq, Repr

structure Reading where
  choices : Choices := {}
  /-- Options taken in so far. -/
  given : List Opt := []
  pending : Pending := .nothing

namespace Reading

/-- Takes in an option with its value. That it was given before is noticed first. -/
def accept (r : Reading) (o : Opt) (value : String) : Except Refusal Reading :=
  if !o.repeats && r.given.contains o then .error (.repeated o.shown)
  else match o.kind.read value with
    | .error .missing => .error (.valueMissing o.shown)
    | .error (.invalid reason) => .error (.valueInvalid o.shown value reason)
    | .ok v => .ok { r with choices := r.choices.take o v, given := o :: r.given }

def acceptTargets (r : Reading) (values : List String) : Except Refusal Reading := do
  let targets ← values.mapM fun s => (readPath s).mapError fun _ => .valueMissing targetsShown
  return { r with choices := { r.choices with targets := r.choices.targets ++ targets } }

def settlePending (r : Reading) : Except Refusal Reading :=
  let r' := { r with pending := .nothing }
  match r.pending with
  | .nothing => .ok r'
  | .option o none => .error (.valueMissing o.shown)
  | .option o (some value) => r'.accept o value
  | .targets values => r'.acceptTargets values

/-- A switch takes effect at once; help and version end the reading. -/
def switch (r : Reading) (o : Opt) : Except Refusal Reading := do
  let r ← r.settlePending
  match o with
  | .help => throw .help
  | .version => throw .version
  | o => r.accept o ""

def long (r : Reading) (arg : List Char) : Except Refusal Reading :=
  let (name, value) := match Text.cutAt '=' arg with
    | some (name, value) => (name, some (String.ofList value))
    | none => (arg, none)
  match Opt.ofName? (String.ofList name) with
  | none => .error (.unknown ("--" ++ String.ofList name))
  | some o =>
    if o.takesValue then
      match value with
      | some v => r.settlePending.bind fun r => r.accept o v
      | none => r.settlePending.map fun r => { r with pending := .option o none }
    else match value with
      | some v => .error (.valueUnneeded o.shown v)
      | none => r.switch o

/-- A single dash is followed by letters, of which only two mean something. -/
def short (r : Reading) : List Char → Except Refusal Reading
  | 'h' :: _ => r.switch .help
  | 'V' :: _ => r.switch .version
  | c :: _ => .error (.unknown ("-" ++ String.singleton c))
  | [] => .ok r

def target (r : Reading) (arg : String) : Except Refusal Reading :=
  match r.pending with
  | .targets values => .ok { r with pending := .targets (values ++ [arg]) }
  | _ => r.settlePending.map fun r => { r with pending := .targets [arg] }

/-- The option that waits for its value. -/
def waiting (r : Reading) : Option Opt :=
  match r.pending with
  | .option o none => some o
  | _ => none

end Reading

/-- What an argument is: the end of the options, an option with two dashes or with one, or a plain
word. -/
inductive Shape where
  | ending
  | long (rest : List Char)
  | short (rest : List Char)
  | word
  deriving DecidableEq, Repr

def shape (arg : String) : Shape :=
  match arg.toList with
  | ['-', '-'] => .ending
  | '-' :: '-' :: rest => .long rest
  | ['-'] => .word
  | '-' :: rest => .short rest
  | _ => .word

/-- Reads the arguments after `--`. -/
def readTargets (r : Reading) : List String → Except Refusal Reading
  | [] => .ok r
  | arg :: args => (r.target arg).bind fun r => readTargets r args

def readArguments (r : Reading) : List String → Except Refusal Reading
  | [] => .ok r
  | arg :: args =>
    match r.waiting with
    | some o =>
      if o.takesHyphens || shape arg = .word then
        readArguments { r with pending := .option o (some arg) } args
      else fresh r arg args
    | none => fresh r arg args
where
  fresh (r : Reading) (arg : String) (args : List String) : Except Refusal Reading :=
    match shape arg with
    | .ending => readTargets r args
    | .long rest => (r.long rest).bind fun r => readArguments r args
    | .short rest => (r.short rest).bind fun r => readArguments r args
    | .word => (r.target arg).bind fun r => readArguments r args

/-- The settings and targets of a command line without the program's name. -/
def parse (args : List String) : Except Refusal (Settings × List Path) := do
  let r ← readArguments {} args
  let r ← r.settlePending
  return r.choices.resolved

/-- The command line of a program called `program`, options with one dash or two. -/
def read (program : String) (args : List String) : Except Refusal (Settings × List Path) :=
  parse (normalize (program :: args)).tail

end Regression.CommandLine
