import Regression.Text.Lines

namespace Regression

/-- A path as it was written. Two spellings of one route are different paths with the same
`components`. -/
structure Path where
  text : String
  deriving DecidableEq, Inhabited, Repr

inductive Component where
  | root
  | current
  | up
  | name (s : String)
  deriving DecidableEq, Repr

namespace Path

/-- The pieces between separators, as they stand. -/
def pieces (p : Path) : List String :=
  (p.text.toList.splitOn '/').map String.ofList

def isAbsolute (p : Path) : Bool :=
  p.text.toList.head? == some '/'

/-- What stands before the names: the root, or a leading `.`. -/
inductive Start where
  | root
  | current
  | plain
  deriving DecidableEq

def start (p : Path) : Start :=
  match p.pieces with
  | "" :: _ :: _ => .root
  | "." :: _ => .current
  | _ => .plain

/-- The pieces after the start. -/
def body (p : Path) : List String :=
  match p.start with
  | .plain => p.pieces
  | _ => p.pieces.tail

/-- A piece that names no step of its own. -/
def isIdle (s : String) : Bool :=
  s == "" || s == "."

def dropIdleEnd (ps : List String) : List String :=
  (ps.reverse.dropWhile isIdle).reverse

def dropIdleStart (ps : List String) : List String :=
  ps.dropWhile isIdle

def step (s : String) : Component :=
  if s = ".." then .up else .name s

def Start.components : Start → List Component
  | .root => [.root]
  | .current => [.current]
  | .plain => []

def components (p : Path) : List Component :=
  p.start.components ++ (p.body.filter fun s => !isIdle s).map step

/-- Two spellings of one route. -/
def same (p q : Path) : Bool :=
  p.components == q.components

def joined (ps : List String) : String :=
  String.intercalate "/" ps

def Start.path (s : Start) (body : List String) : Path :=
  match s with
  | .root => ⟨"/" ++ joined body⟩
  | .current => if body.isEmpty then ⟨"."⟩ else ⟨"./" ++ joined body⟩
  | .plain => ⟨joined body⟩

/-- An absolute right side replaces the left one; else one separator stands between them. -/
def join (p : Path) (s : String) : Path :=
  if s.toList.head? == some '/' then ⟨s⟩
  else if p.text == "" || p.text.toList.getLast? == some '/' then ⟨p.text ++ s⟩
  else ⟨p.text ++ "/" ++ s⟩

instance : HDiv Path String Path := ⟨join⟩

/-- The path without its last component; the root and the empty path have none. -/
def parent (p : Path) : Option Path :=
  match dropIdleEnd p.body with
  | [] => if p.start = .current then some ⟨""⟩ else none
  | body => some (p.start.path (dropIdleEnd body.dropLast))

/-- The last component where it is a name. -/
def fileName (p : Path) : Option String :=
  match (dropIdleEnd p.body).getLast? with
  | none => none
  | some s => if s = ".." then none else some s

/-- The path and all its parents, the nearest first. -/
def ancestors (p : Path) : List Path :=
  climb (p.body.length + 1) p
where
  climb : Nat → Path → List Path
    | 0, p => [p]
    | n + 1, p =>
      match p.parent with
      | none => [p]
      | some q => p :: climb n q

/-- The pieces left when as many names are taken off the front. -/
def dropNames : Nat → List String → List String
  | 0, ps => dropIdleStart ps
  | n + 1, ps => dropNames n (dropIdleStart ps).tail

def startsWith (p base : Path) : Bool :=
  base.components.isPrefixOf p.components

/-- The rest of a path below `base`, as it was written. -/
def below? (p base : Path) : Option Path :=
  if p.startsWith base then
    if base.components.isEmpty then some (p.start.path (dropIdleEnd p.body))
    else
      let names := base.components.length - p.start.components.length
      some ⟨joined (dropIdleEnd (dropNames names p.body))⟩
  else none

def Component.text : Component → String
  | .root => "/"
  | .current => "."
  | .up => ".."
  | .name s => s

/-- The steps taken so far, the last one first. A step up takes a name back, stays at the root, and
is kept where there is nothing to take back. -/
def settle (taken : List Component) : Component → List Component
  | .current => taken
  | .up =>
    match taken with
    | .name _ :: rest => rest
    | .root :: rest => .root :: rest
    | rest => .up :: rest
  | c => c :: taken

def ofComponents : List Component → Path
  | .root :: cs => ⟨"/" ++ joined (cs.map Component.text)⟩
  | cs => ⟨joined (cs.map Component.text)⟩

/-- The route without `.` and without `..` after a name. Links are not followed. -/
def normalize (p : Path) : Path :=
  ofComponents (p.components.foldl settle []).reverse

end Path

end Regression
