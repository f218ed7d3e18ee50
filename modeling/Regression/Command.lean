import Regression.Environment
import Regression.FileTree

namespace Regression

open Text (Bytes)

/-- An external tool with all that it is started with. Where no directory is given it works where
the session does. -/
structure Command where
  program : String
  arguments : List String := []
  environment : Environment := .empty
  directory : Option Path := none
  deriving DecidableEq, Inhabited

namespace Command

/-- A word that cannot be handed to the system is not shown. -/
def shownWord (a : String) : String :=
  if Text.hasZero a then "<string-with-nul>" else a

def shownArgument (a : String) : String :=
  let a := shownWord a
  if a == "" || a.toList.contains ' ' then "'" ++ a ++ "'" else a

/-- A command as logs and errors show it: arguments with a space in them are quoted. -/
def shown (c : Command) : String :=
  shownWord c.program ++ String.join (c.arguments.map fun a => " " ++ shownArgument a)

end Command

inductive Stream where
  | output
  | diagnostics
  deriving DecidableEq, Repr

inductive Status where
  | exited (code : Nat)
  | killed (signal : Nat)
  deriving DecidableEq, Repr

/-- The exit code, or the signal as a negative number. -/
def Status.code : Status → Int
  | .exited n => n
  | .killed n => -n

/-- What a tool leaves behind: what it wrote, in order, how it ended, and the files. -/
structure Ended where
  written : List (Stream × Bytes)
  status : Status
  files : FileTree

namespace Ended

def joined (e : Ended) : Bytes :=
  e.written.flatMap (·.2)

def on (e : Ended) (s : Stream) : Bytes :=
  (e.written.filter (·.1 = s)).flatMap (·.2)

end Ended

/-- How the tools of a machine behave: the commands before, the command, the directory that the
session works in, and the files decide whether the command starts and what it does. -/
abbrev Tools := List Command → Command → Location → FileTree → Except Fault Ended

end Regression
