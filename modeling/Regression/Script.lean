import Regression.Command
import Regression.Text.Numeral

namespace Regression

open Text (Bytes)

/-- The small programs that tools are made of. -/
inductive Instruction where
  /-- Prints a text, or bytes, as they are. -/
  | print (stream : Stream) (text : String)
  | printBytes (bytes : Bytes)
  /-- Prints a line for each argument, to the output or to a file. -/
  | arguments
  | argumentsTo (file : String)
  /-- Prints the variables that concern tests. -/
  | bindings
  | binding (name : String)
  /-- Prints the file that the first argument names, or one that is given. -/
  | showArgument
  | show (file : String)
  | directory
  /-- Exits with 1 where the first argument's file speaks of exploding. -/
  | explode
  /-- Reports each test of the directory, or the one asked for: it fails if its source says so. The
  tests become the arguments. -/
  | tests
  /-- Exits with the code that a file holds, where there is one. -/
  | exitFrom (file : String)
  | exit (code : Nat)
  /-- Exits with the status of the instruction before; `line` spells it. -/
  | leave (line : String)
  | kill (signal : Nat)
  | write (file text : String)
  | remove (file : String)
  | removeNamed (name : String)
  | makeNamed (name : String)
  /-- A line for the reader only. -/
  | comment (line : String)
  /-- A line that begins with a word which the shell does not know. -/
  | unknown (word line : String)
  deriving DecidableEq

abbrev Script := List Instruction

namespace Script

def quoted (s : String) : String :=
  let letters := s.toList.flatMap fun c => if c = '\'' then ['\'', '\\', '\'', '\''] else [c]
  "'" ++ String.ofList letters ++ "'"

def octal (b : UInt8) : String :=
  "\\" ++ String.ofList
    ([b.toNat / 64, b.toNat / 8 % 8, b.toNat % 8].map fun d => Char.ofNat (48 + d))

def argumentLoop : String := "for a in \"$@\"; do printf 'arg:%s\\n' \"$a\"; done"

/-- An instruction in the language of the shell. -/
def instructionText : Instruction → String
  | .print .output text => "printf '%s' " ++ quoted text
  | .print .diagnostics text => "printf '%s' " ++ quoted text ++ " 1>&2"
  | .printBytes bytes => "printf '" ++ String.join (bytes.map octal) ++ "'"
  | .arguments => argumentLoop
  | .argumentsTo file => argumentLoop ++ " > " ++ quoted file
  | .bindings =>
    "/usr/bin/env | LC_ALL=C /usr/bin/sort | /bin/grep -E '^(CHPL_[A-Z0-9_]*|COMPOPTS|EXECOPTS|" ++
      "LAUNCHCMD|NUMLOCALES|LANG|LC_ALL|LC_COLLATE)='"
  | .binding name =>
    "printf '%s=%s\\n' " ++ name ++ " \"$\x7b" ++ name ++ "-@unset@\x7d\""
  | .showArgument => "/bin/cat \"$1\""
  | .show file => "/bin/cat " ++ quoted file
  | .directory => "printf 'cwd:%s\\n' \"$(pwd -P)\""
  | .explode => "if /bin/grep -q explode \"$1\"; then exit 1; fi"
  | .tests =>
    "if [ -n \"$CHPL_ONETEST\" ]; then set -- \"$CHPL_ONETEST\"; else set -- *.chpl; fi; " ++
      "for f in \"$@\"; do if [ -f \"$f\" ]; then if /bin/grep -q fail \"$f\"; " ++
      "then printf '[Error matching program output for %s]\\n' \"$f\"; " ++
      "else printf '[Success matching program output for %s]\\n' \"$f\"; fi; fi; done"
  | .exitFrom file =>
    "if [ -f " ++ quoted file ++ " ]; then exit \"$(/bin/cat " ++ quoted file ++ ")\"; fi"
  | .exit code => "exit " ++ toString code
  | .leave line => line
  | .kill signal => "kill -" ++ toString signal ++ " $$"
  | .write file text => "printf '%s' " ++ quoted text ++ " > " ++ quoted file
  | .remove file => "/bin/rm -rf " ++ quoted file
  | .removeNamed name => "/bin/rm -rf \"$" ++ name ++ "\""
  | .makeNamed name => "/bin/mkdir -p \"$" ++ name ++ "\""
  | .comment line => line
  | .unknown _ line => line

/-- The first line of a script. -/
def header : String := "#!/bin/sh"

def text (s : Script) : String :=
  header ++ "\n" ++ String.join (s.map fun i => instructionText i ++ "\n")

def isGap (c : Char) : Bool := c = ' ' || c = '\t'

/-- What the shell makes of a line that is none of the instructions above: it is empty, a comment,
an exit, or begins with a word that names nothing. -/
def lineRead (line : String) : Instruction :=
  let cs := line.toList.dropWhile isGap
  let word := String.ofList (cs.takeWhile (!isGap ·))
  if cs.isEmpty || cs.head? = some '#' then .comment line
  else if word = "exit" then
    let number := (cs.drop 4).filter (!isGap ·)
    if number.isEmpty then .leave line
    else match Text.readCount (String.ofList number) with
      | some code => .exit code
      | none => .unknown word line
  else .unknown word line

/-- The script that a text is, read line by line. -/
def ofText (text : String) : Script :=
  let lines := text.toList.splitOn '\n'
  let lines := if lines.getLast? = some [] then lines.dropLast else lines
  lines.map fun line => lineRead (String.ofList line)

end Script

end Regression
