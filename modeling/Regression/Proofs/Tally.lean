import Regression.Proofs.Lines
import Regression.Summary

namespace Regression

/-- What two texts are that one text begins with. -/
theorem Text.startsWith_both {s a b : String} (ha : startsWith s a = true)
    (hb : startsWith s b = true) : startsWith a b = true ∨ startsWith b a = true := by
  simp only [startsWith, List.isPrefixOf_iff_prefix] at *
  exact (List.prefix_or_prefix_of_prefix ha hb).symm

section Found

variable {α : Type} {p : α → Bool} {xs ys : List α} {a : α}

/-- The only one that is looked for is found wherever it stands. -/
theorem find?_of_unique (honly : ∀ a b, p a = true → p b = true → a = b) (hmem : a ∈ xs)
    (ha : p a = true) : xs.find? p = some a := by
  cases hfind : xs.find? p with
  | none => exact absurd ha (List.find?_eq_none.mp hfind a hmem)
  | some b => rw [honly b a (List.find?_some hfind) ha]

theorem find?_perm (honly : ∀ a b, p a = true → p b = true → a = b) (h : ys.Perm xs) :
    ys.find? p = xs.find? p := by
  cases hfind : xs.find? p with
  | none =>
    rw [List.find?_eq_none] at hfind ⊢
    exact fun a ha => hfind a (h.mem_iff.mp ha)
  | some a =>
    apply find?_of_unique honly
    · exact h.mem_iff.mpr (List.mem_of_find?_eq_some hfind)
    · exact List.find?_some hfind

end Found

variable {marker : SuccessMarker} {line : String}

namespace Category

theorem mem_all (c : Category) : c ∈ all := by
  cases c <;> simp [all]

theorem openings_apart {c c' : Category}
    (h : Text.startsWith (c.opening marker) (c'.opening marker) = true) : c = c' := by
  cases marker <;> cases c <;> cases c' <;> first | rfl | contradiction

/-- No line begins as lines of two categories do. -/
theorem holds_unique (c c' : Category) (h : holds marker line c = true)
    (h' : holds marker line c' = true) : c = c' := by
  rcases Text.startsWith_both h h' with hboth | hboth
  · exact openings_apart hboth
  · exact (openings_apart hboth).symm

theorem of_eq_some {c : Category} : of marker line = some c ↔ holds marker line c = true :=
  ⟨fun h => List.find?_some h, find?_of_unique holds_unique (mem_all c)⟩

end Category

namespace Tag

def opening : Tag → String
  | passingSuppression => "Suppress"
  | passingFuture => "Future"
  | skippedStdin => "[Skipping test with "

/-- The category of the lines with the tag. -/
def category : Tag → Option Category
  | passingSuppression => some .suppression
  | passingFuture => some .future
  | skippedStdin => none

theorem startsWith_opening {t : Tag} (h : holds marker line t = true) :
    Text.startsWith line t.opening = true := by
  cases t with
  | passingSuppression | passingFuture | skippedStdin => exact (Bool.and_eq_true_iff.mp h).1

theorem openings_apart {t t' : Tag} (h : Text.startsWith t.opening t'.opening = true) : t = t' := by
  cases t <;> cases t' <;> first | rfl | contradiction

/-- No line has two tags. -/
theorem holds_unique (t t' : Tag) (h : holds marker line t = true)
    (h' : holds marker line t' = true) : t = t' := by
  rcases Text.startsWith_both (startsWith_opening h) (startsWith_opening h') with hboth | hboth
  · exact openings_apart hboth
  · exact (openings_apart hboth).symm

/-- A tag settles the category. -/
theorem category_of {t : Tag} (h : of marker line = some t) :
    Category.of marker line = t.category := by
  have hopening := startsWith_opening (List.find?_some h)
  cases t with
  | passingSuppression => exact Category.of_eq_some.mpr hopening
  | passingFuture => exact Category.of_eq_some.mpr hopening
  | skippedStdin =>
    apply List.find?_eq_none.mpr
    intro c _ hc
    rcases Text.startsWith_both hopening hc with hboth | hboth
    · cases marker <;> cases c <;> contradiction
    · cases marker <;> cases c <;> contradiction

end Tag

namespace Summary

/-- The lines of a category, in order. -/
def linesOf (marker : SuccessMarker) (c : Option Category) (lines : List String) : List String :=
  lines.filter fun line => Category.of marker line = c

/-- How many lines have a tag. -/
def tagged (marker : SuccessMarker) (t : Tag) (lines : List String) : Nat :=
  lines.countP fun line => Tag.of marker line = some t

/-- The lines of each category, counted and put together, and the tags counted. -/
def tally (marker : SuccessMarker) (lines : List String) : Summary where
  successes := (linesOf marker (some .success) lines).length
  failures := (linesOf marker (some .error) lines).length
  futures := (linesOf marker (some .future) lines).length
  warnings := (linesOf marker (some .warning) lines).length
  passingSuppressions := tagged marker .passingSuppression lines
  passingFutures := tagged marker .passingFuture lines
  skippedStdin := tagged marker .skippedStdin lines
  failureLines := written (linesOf marker (some .error) lines)
  suppressionLines := written (linesOf marker (some .suppression) lines)
  futureLines := written (linesOf marker (some .future) lines)
  warningLines := written (linesOf marker (some .warning) lines)

/-- Counts added, and text blocks one after the other. -/
def combine (s t : Summary) : Summary where
  successes := s.successes + t.successes
  failures := s.failures + t.failures
  futures := s.futures + t.futures
  warnings := s.warnings + t.warnings
  passingSuppressions := s.passingSuppressions + t.passingSuppressions
  passingFutures := s.passingFutures + t.passingFutures
  skippedStdin := s.skippedStdin + t.skippedStdin
  failureLines := s.failureLines ++ t.failureLines
  suppressionLines := s.suppressionLines ++ t.suppressionLines
  futureLines := s.futureLines ++ t.futureLines
  warningLines := s.warningLines ++ t.warningLines

theorem tally_append (xs ys : List String) :
    tally marker (xs ++ ys) = (tally marker xs).combine (tally marker ys) := by
  simp [tally, combine, linesOf, tagged, written_append]

theorem empty_combine (s : Summary) : combine {} s = s := by
  simp [combine]

theorem combine_assoc (s t u : Summary) : (s.combine t).combine u = s.combine (t.combine u) := by
  simp [combine, Nat.add_assoc, String.append_assoc]

/-- One line more is one line more in the tally. -/
theorem addLine_eq (s : Summary) (line : String) :
    s.addLine marker line = s.combine (tally marker [line]) := by
  rcases hc : Category.of marker line with _ | c
  all_goals rcases ht : Tag.of marker line with _ | t
  · simp [addLine, addCategory, addTag, combine, tally, linesOf, tagged, written, hc, ht]
  · cases t <;> simp [addLine, addCategory, addTag, combine, tally, linesOf, tagged, written, hc, ht]
  · cases c <;>
      simp [addLine, addCategory, addTag, combine, tally, linesOf, tagged, written, hc, ht,
        String.append_assoc]
  · cases c <;> cases t <;>
      simp [addLine, addCategory, addTag, combine, tally, linesOf, tagged, written, hc, ht,
        String.append_assoc]

theorem foldl_addLine (lines : List String) (s : Summary) :
    lines.foldl (addLine marker) s = s.combine (tally marker lines) := by
  induction lines generalizing s with
  | nil => simp [combine, tally, linesOf, tagged, written]
  | cons line lines ih =>
    rw [List.foldl_cons, ih, addLine_eq, combine_assoc, ← tally_append, List.singleton_append]

/-- The summary of a log is the tally of its lines. -/
theorem ofLog_eq (marker : SuccessMarker) (log : String) :
    ofLog marker log = tally marker (Text.lines log) := by
  rw [ofLog, foldl_addLine, empty_combine]

/-- The summary of a log whose lines are tried for categories and for tags in such an order. -/
def ofLogBy (primary : List Category) (secondary : List Tag) (marker : SuccessMarker)
    (log : String) : Summary :=
  (Text.lines log).foldl
    (fun s line => (s.addCategory line (primary.find? (Category.holds marker line))).addTag
      (secondary.find? (Tag.holds marker line))) {}

theorem ofLogBy_perm {primary : List Category} {secondary : List Tag}
    (hp : primary.Perm Category.all) (hs : secondary.Perm Tag.all) (log : String) :
    ofLogBy primary secondary marker log = ofLog marker log := by
  have hline : ∀ line, primary.find? (Category.holds marker line) = Category.of marker line ∧
      secondary.find? (Tag.holds marker line) = Tag.of marker line := fun line =>
    ⟨find?_perm Category.holds_unique hp, find?_perm Tag.holds_unique hs⟩
  simp only [ofLogBy, hline]
  rfl

/-- Every line is of one category or of none. -/
theorem length_lines (lines : List String) :
    (tally marker lines).successes + (tally marker lines).failures + (tally marker lines).futures +
      (tally marker lines).warnings + (linesOf marker (some .suppression) lines).length +
      (linesOf marker none lines).length = lines.length := by
  simp only [tally]
  induction lines with
  | nil => rfl
  | cons line lines ih =>
    simp only [linesOf, List.length_cons] at ih ⊢
    rcases hc : Category.of marker line with _ | c
    · simp [hc]
      omega
    · cases c <;> simp [hc] <;> omega

/-- The lines with a tag are lines of its category. -/
theorem tagged_le (t : Tag) (lines : List String) :
    tagged marker t lines ≤ (linesOf marker t.category lines).length := by
  rw [tagged, linesOf, ← List.countP_eq_length_filter]
  apply List.countP_mono_left
  intro line _ ht
  simp only [decide_eq_true_eq] at ht ⊢
  exact Tag.category_of ht

/-- The newlines of a block are those that end its lines. -/
theorem count_written {ls : List String} (h : ∀ l ∈ ls, '\n' ∉ l.toList) :
    (written ls).toList.count '\n' = ls.length := by
  induction ls with
  | nil => rfl
  | cons l ls ih =>
    have hl : l.toList.count '\n' = 0 := List.count_eq_zero.mpr (h l List.mem_cons_self)
    rw [written_cons, String.toList_append, String.toList_append, List.count_append,
      List.count_append, hl, ih fun l hl => h l (List.mem_cons_of_mem _ hl), List.length_cons]
    simp [Nat.add_comm]

theorem count_linesOf (marker : SuccessMarker) (c : Option Category) (log : String) :
    (written (linesOf marker c (Text.lines log))).toList.count '\n' =
      (linesOf marker c (Text.lines log)).length :=
  count_written fun _ hl => Text.newline_not_mem_lines (List.mem_filter.mp hl).1

end Summary

open Summary (ofLog linesOf)

/-- What a summary says of the lines of its log. -/
structure Accounts (marker : SuccessMarker) (log : String) (s : Summary) : Prop where
  /-- A log that ends its last line leaves the next one its lines. -/
  append : ∀ before, before = "" ∨ before.toList.getLast? = some '\n' →
    ofLog marker (before ++ log) = (ofLog marker before).combine s
  /-- Every line is counted once. -/
  lines : s.successes + s.failures + s.futures + s.warnings +
    (linesOf marker (some .suppression) (Text.lines log)).length +
    (linesOf marker none (Text.lines log)).length = (Text.lines log).length
  successes : s.successes = (linesOf marker (some .success) (Text.lines log)).length
  failureLines : s.failureLines = written (linesOf marker (some .error) (Text.lines log))
  suppressionLines :
    s.suppressionLines = written (linesOf marker (some .suppression) (Text.lines log))
  futureLines : s.futureLines = written (linesOf marker (some .future) (Text.lines log))
  warningLines : s.warningLines = written (linesOf marker (some .warning) (Text.lines log))
  failures : s.failures = s.failureLines.toList.count '\n'
  futures : s.futures = s.futureLines.toList.count '\n'
  warnings : s.warnings = s.warningLines.toList.count '\n'
  passingFutures : s.passingFutures ≤ s.futures
  passingSuppressions : s.passingSuppressions ≤ s.suppressionLines.toList.count '\n'
  skippedStdin : ∀ line ∈ Text.lines log, Tag.of marker line = some .skippedStdin →
    Category.of marker line = none
  order : ∀ primary secondary, primary.Perm Category.all → secondary.Perm Tag.all →
    Summary.ofLogBy primary secondary marker log = s

/-- The summary of every log accounts for its lines. -/
theorem Summary.ofLog_accounts (marker : SuccessMarker) (log : String) :
    Accounts marker log (ofLog marker log) := by
  have htally := ofLog_eq marker log
  constructor
  · intro before hbefore
    rw [ofLog_eq, Text.lines_append hbefore, tally_append, ← ofLog_eq, ← ofLog_eq]
  · rw [htally]
    exact length_lines _
  · rw [htally]
    rfl
  · rw [htally]
    rfl
  · rw [htally]
    rfl
  · rw [htally]
    rfl
  · rw [htally]
    rfl
  · rw [htally]
    exact (count_linesOf ..).symm
  · rw [htally]
    exact (count_linesOf ..).symm
  · rw [htally]
    exact (count_linesOf ..).symm
  · rw [htally]
    exact tagged_le .passingFuture _
  · rw [htally]
    calc tagged marker .passingSuppression (Text.lines log)
        ≤ (linesOf marker (some .suppression) (Text.lines log)).length := tagged_le _ _
      _ = _ := (count_linesOf ..).symm
  · exact fun line _ ht => Tag.category_of ht
  · exact fun primary secondary hp hs => ofLogBy_perm hp hs log

end Regression
