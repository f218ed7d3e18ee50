import Regression.FileTree

namespace Regression

/-- A name that something in a directory can have. -/
structure IsName (s : String) : Prop where
  filled : s ≠ ""
  notHere : s ≠ "."
  notUp : s ≠ ".."
  whole : '/' ∉ s.toList

instance (s : String) : Decidable (IsName s) :=
  decidable_of_iff (s ≠ "" ∧ s ≠ "." ∧ s ≠ ".." ∧ '/' ∉ s.toList)
    ⟨fun ⟨h₁, h₂, h₃, h₄⟩ => ⟨h₁, h₂, h₃, h₄⟩, fun h => ⟨h.filled, h.notHere, h.notUp, h.whole⟩⟩

namespace Path

/-- The names that a path spells, one for each step it takes. -/
def names (p : Path) : List String := p.pieces.filter (· != "")

def endsInSeparator (p : Path) : Bool := p.text.toList.getLast? == some '/'

/-- Where the route of a path starts. -/
def origin (p : Path) (cwd : Location) : Location := if p.isAbsolute then [] else cwd

variable {p : Path} {s : String}

theorem head_ne_separator (hs : '/' ∉ s.toList) : (s.toList.head? == some '/') = false := by
  cases h : s.toList with
  | nil => rfl
  | cons c cs =>
    have hc : c ≠ '/' := fun hc => hs (by simp [h, hc])
    simp [hc]

theorem isAbsolute_name (hs : '/' ∉ s.toList) : (Path.mk s).isAbsolute = false :=
  head_ne_separator hs

/-- A join puts one separator before the new text, which may end the left path already. -/
theorem join_text (hp : p.text ≠ "") (hs : (Path.mk s).isAbsolute = false) :
    ∃ cs, (p / s).text.toList = cs ++ '/' :: s.toList ∧
      p.text.toList = if p.endsInSeparator then cs ++ ['/'] else cs := by
  have hhead : (s.toList.head? == some '/') = false := hs
  have hj : p / s = if p.endsInSeparator then ⟨p.text ++ s⟩ else ⟨p.text ++ "/" ++ s⟩ := by
    change p.join s = _
    simp [join, hhead, hp, endsInSeparator]
  by_cases he : p.endsInSeparator = true
  · obtain ⟨cs, hcs⟩ := List.getLast?_eq_some_iff.mp (by simpa [endsInSeparator] using he)
    exact ⟨cs, by simp [hj, he, hcs], by simp [he, hcs]⟩
  · exact ⟨p.text.toList, by simp [hj, he], by simp [he]⟩

theorem names_join (hp : p.text ≠ "") (hs : '/' ∉ s.toList) (hf : s ≠ "") :
    (p / s).names = p.names ++ [s] := by
  obtain ⟨cs, hj, ht⟩ := join_text hp (isAbsolute_name hs)
  have hlast : (s.toList.splitOn '/').map String.ofList = [s] := by
    simp [List.splitOn_eq_singleton hs]
  have hnames : p.names = ((cs.splitOn '/').map String.ofList).filter (· != "") := by
    rw [names, pieces, ht]
    split
    · rw [List.splitOn_append_cons_self]
      simp
    · rfl
  rw [hnames, names, pieces, hj, List.splitOn_append_cons_self, List.map_append, hlast,
    List.filter_append]
  simp [hf]

theorem join_endsInSeparator (hp : p.text ≠ "") (hs : '/' ∉ s.toList) (hf : s ≠ "") :
    (p / s).endsInSeparator = false := by
  obtain ⟨cs, hj, -⟩ := join_text hp (isAbsolute_name hs)
  have hn : s.toList ≠ [] := by simpa using hf
  have hlast : s.toList.getLast hn ≠ '/' := fun h => hs (h ▸ List.getLast_mem hn)
  rw [endsInSeparator, hj, List.getLast?_append, List.getLast?_cons, List.getLast?_eq_some_getLast hn]
  simpa using hlast

theorem join_isAbsolute (hp : p.text ≠ "") (hs : (Path.mk s).isAbsolute = false) :
    (p / s).isAbsolute = p.isAbsolute := by
  obtain ⟨cs, hj, ht⟩ := join_text hp hs
  have hn : p.text.toList ≠ [] := by simpa using hp
  rw [isAbsolute, isAbsolute, hj, ht]
  split
  · cases cs <;> rfl
  · next he =>
    cases cs with
    | nil => simp [he] at ht; exact absurd ht hp
    | cons c cs => rfl

theorem join_origin (hp : p.text ≠ "") (hs : '/' ∉ s.toList) (cwd : Location) :
    (p / s).origin cwd = p.origin cwd := by
  rw [origin, origin, join_isAbsolute hp (isAbsolute_name hs)]

theorem size_join (hs : '/' ∉ s.toList) (hf : s ≠ "") :
    p.text.utf8ByteSize < (p / s).text.utf8ByteSize := by
  have hpos : 0 < s.utf8ByteSize := by
    have := mt String.utf8ByteSize_eq_zero_iff.mp hf
    omega
  change p.text.utf8ByteSize < (p.join s).text.utf8ByteSize
  rw [join, head_ne_separator hs]
  split
  · contradiction
  · split <;> simp only [String.utf8ByteSize_append] <;> omega

end Path

namespace FileTree

theorem steps_eq (p : Path) :
    steps p = if p.endsInSeparator then p.names ++ [""] else p.names := rfl

end FileTree

end Regression
