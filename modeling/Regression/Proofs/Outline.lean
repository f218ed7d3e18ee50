import Regression.FileTree.Edit

namespace Regression

/-- What is left of a file without its contents; all else stays as it is. -/
def Node.outline : Node → Node
  | .file _ mode _ => .file 0 mode []
  | n => n

@[simp] theorem Node.isDirectory_outline (n : Node) : n.outline.isDirectory = n.isDirectory := by
  cases n <;> rfl

@[simp] theorem Node.isFile_outline (n : Node) : n.outline.isFile = n.isFile := by
  cases n <;> rfl

namespace FileTree

/-- A tree without the contents of its files: all that lookups and listings see. -/
def outline (t : FileTree) : FileTree :=
  { entries := t.entries.map fun e => (e.1, e.2.outline) }

variable (t : FileTree) (cwd l : Location) (p : Path)

theorem lookup_mapped (es : List (Location × Node)) (g : Node → Node) (l : Location) :
    (es.map fun e => (e.1, g e.2)).lookup l = (es.lookup l).map g := by
  induction es with
  | nil => rfl
  | cons e es ih =>
    obtain ⟨l', n⟩ := e
    simp only [List.map_cons, List.lookup_cons]
    cases l == l' with
    | true => rfl
    | false => exact ih

theorem node?_outline : t.outline.node? l = (t.node? l).map Node.outline :=
  lookup_mapped t.entries Node.outline l

theorem reach_outline (follow : Bool) (xs : List String) :
    t.outline.reach follow l xs = t.reach follow l xs := by
  induction xs generalizing l with
  | nil => rfl
  | cons s rest ih =>
    simp only [reach, node?_outline]
    cases t.node? l with
    | none => rfl
    | some n =>
      cases n with
      | directory m =>
        simp only [Option.map_some, Node.outline, ih]
        cases t.node? (s :: l) with
        | none => rfl
        | some n => cases n <;> rfl
      | _ => rfl

theorem travel_outline (follow : Bool) (links : Nat) (xs : List String) :
    t.outline.travel follow links l xs = t.travel follow links l xs := by
  induction links generalizing l xs with
  | zero =>
    rw [travel, travel, reach_outline]
  | succ links ih =>
    rw [travel, travel, reach_outline]
    cases t.reach follow l xs with
    | link l' target rest => exact ih _ _
    | _ => rfl

theorem locate_outline (follow : Bool) : t.outline.locate follow cwd p = t.locate follow cwd p := by
  simp only [locate, travel_outline]

theorem findAt_outline (follow : Bool) :
    t.outline.findAt follow cwd p =
      (t.findAt follow cwd p).map fun found => (found.1, found.2.outline) := by
  simp only [findAt, locate_outline, node?_outline]
  cases t.locate follow cwd p with
  | error f => rfl
  | ok found =>
    simp only [bind, Except.bind]
    cases t.node? found.1 <;> rfl

theorem find_outline : t.outline.find cwd p =
    (t.find cwd p).map fun found => (found.1, found.2.outline) :=
  findAt_outline t cwd p true

@[simp] theorem isDirectory_outline : t.outline.isDirectory cwd p = t.isDirectory cwd p := by
  simp only [isDirectory, find_outline]
  cases t.find cwd p with
  | error f => rfl
  | ok found => exact Node.isDirectory_outline found.2

@[simp] theorem isFile_outline : t.outline.isFile cwd p = t.isFile cwd p := by
  simp only [isFile, find_outline]
  cases t.find cwd p with
  | error f => rfl
  | ok found => exact Node.isFile_outline found.2

@[simp] theorem isThere_outline : t.outline.isThere cwd p = t.isThere cwd p := by
  simp only [isThere, find_outline]
  cases t.find cwd p <;> rfl

@[simp] theorem isExecutable_outline : t.outline.isExecutable cwd p = t.isExecutable cwd p := by
  simp only [isExecutable, find_outline]
  cases t.find cwd p with
  | error f => rfl
  | ok found =>
    obtain ⟨l, n⟩ := found
    cases n <;> rfl

theorem children_outline :
    t.outline.children l = (t.children l).map fun e => (e.1, e.2.outline) := by
  have hc : ∀ e : Location × Node, child? l (e.1, e.2.outline) =
      (child? l e).map fun e => (e.1, e.2.outline) := by
    rintro ⟨l', n⟩
    cases l' with
    | nil => rfl
    | cons s l' =>
      simp only [child?]
      split <;> rfl
  rw [children, children, List.map_mergeSort (s := fun a b : String × Node => decide (a.1 ≤ b.1))
    fun _ _ _ _ => rfl]
  congr 1
  simp only [outline, List.filterMap_map, List.map_filterMap, Function.comp_def, hc]

theorem list_outline : t.outline.list cwd p =
    (t.list cwd p).map (List.map fun e => (e.1, e.2.outline)) := by
  simp only [list, find_outline, children_outline]
  cases t.find cwd p with
  | error f => rfl
  | ok found =>
    obtain ⟨l, n⟩ := found
    cases n with
    | directory m =>
      simp only [Except.map, bind, Except.bind, Node.outline]
      split <;> rfl
    | _ => rfl

/-- Whether a file can be read does not depend on contents. -/
theorem read_outline : (t.outline.read cwd p).isOk = (t.read cwd p).isOk := by
  simp only [read, find_outline]
  cases t.find cwd p with
  | error f => rfl
  | ok found =>
    obtain ⟨l, n⟩ := found
    cases n with
    | file s m c =>
      simp only [Except.map, bind, Except.bind, Node.outline]
      split <;> rfl
    | _ => rfl

/-- Nor does whether it can be opened for writing. -/
theorem openFile_outline (how : Opening) (m : Mode) :
    (t.outline.openFile cwd p how m).isOk = (t.openFile cwd p how m).isOk := by
  have hholder : ∀ l, t.outline.checkHolder l = t.checkHolder l := by
    intro l
    simp only [checkHolder, node?_outline]
    cases t.node? l.tail with
    | none => rfl
    | some n => cases n <;> rfl
  simp only [openFile, locate_outline, node?_outline, hholder]
  cases checkPath p with
  | error f => rfl
  | ok u =>
    simp only [bind, Except.bind]
    cases t.locate (!(p.text.toList.getLast? == some '/')) cwd (dropSeparators p) with
    | error f => rfl
    | ok found =>
      obtain ⟨l, there⟩ := found
      cases p.text.toList.getLast? == some '/' with
      | true => rfl
      | false =>
        cases there with
        | true =>
          simp only [Bool.false_eq_true, ↓reduceIte]
          cases t.node? l with
          | none => rfl
          | some n =>
            cases n with
            | file s m c =>
              simp only [Option.map_some, Node.outline]
              split <;> rfl
            | directory m => rfl
            | link target => rfl
            | device room => rfl
        | false =>
          simp only [Bool.false_eq_true, ↓reduceIte]
          cases t.checkHolder l <;> rfl

theorem outline_mapContents (serial : Nat) (f : Text.Bytes → Text.Bytes) :
    (t.mapContents serial f).outline = t.outline := by
  simp only [outline, mapContents, List.map_map]
  congr 1
  apply List.map_congr_left
  rintro ⟨l, n⟩ -
  cases n with
  | file s m c =>
    simp only [Function.comp]
    split <;> rfl
  | _ => rfl

end FileTree

end Regression
