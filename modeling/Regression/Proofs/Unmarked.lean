import Regression.Proofs.Forwarding
import Regression.Proofs.OneLine
import Regression.Proofs.Tally

namespace Regression

/-- How the lines begin that count as failures and, where there is only to be graphed, as successes. -/
def graphMarks : List String := [Category.error, .success].map (Category.opening .generating)

namespace Text

/-- A beginning that no line with a mark shares, whatever follows. -/
def Foreign (s : String) : Prop :=
  ∀ mark ∈ graphMarks, ¬mark.toList <+: s.toList ∧ ¬s.toList <+: mark.toList

instance (s : String) : Decidable (Foreign s) :=
  decidable_of_iff
    (graphMarks.all (fun mark => !startsWith s mark && !startsWith mark s) = true) (by
      simp only [Foreign, startsWith, List.all_eq_true, Bool.and_eq_true, Bool.not_eq_true',
        ← List.isPrefixOf_iff_prefix, Bool.not_eq_true])

theorem Foreign.append {s : String} (h : Foreign s) (more : String) : Foreign (s ++ more) := by
  intro mark hmark
  rw [String.toList_append]
  refine ⟨fun hopens => ?_, fun hopens =>
    (h mark hmark).2 ((List.prefix_append _ _).trans hopens)⟩
  exact (List.prefix_or_prefix_of_prefix hopens (List.prefix_append _ _)).elim (h mark hmark).1
    (h mark hmark).2

/-- No line but the first begins with a mark. -/
def UnmarkedBelow (s : String) : Prop :=
  ∀ before rest, s.toList = before ++ '\n' :: rest → ∀ mark ∈ graphMarks, ¬mark.toList <+: rest

/-- No line begins with a mark. -/
structure Unmarked (s : String) : Prop where
  first : ∀ mark ∈ graphMarks, ¬mark.toList <+: s.toList
  below : UnmarkedBelow s

section Composed

variable {a b s t : String}

theorem OneLine.unmarkedBelow (h : OneLine s) : UnmarkedBelow s := by
  intro before rest hs
  exact absurd (by rw [hs]; simp) h

/-- What is cut off at both ends takes no beginning of a line away but the first. -/
theorem UnmarkedBelow.cut (h : UnmarkedBelow s) (ht : t.toList <:+: s.toList) : UnmarkedBelow t := by
  obtain ⟨front, back, hcut⟩ := ht
  intro before rest hrest mark hmark hopens
  refine h (front ++ before) (rest ++ back) ?_ mark hmark (hopens.trans (List.prefix_append _ _))
  rw [← hcut, hrest]
  simp

theorem UnmarkedBelow.trim (h : UnmarkedBelow s) : UnmarkedBelow (trim s) := by
  have hstart : dropBlankStart s.toList <:+ s.toList := List.dropWhile_suffix _
  have hend := trimEnd_opening (String.ofList (dropBlankStart s.toList))
  have htrim : Text.trim s = trimEnd (String.ofList (dropBlankStart s.toList)) := by
    rw [Text.trim, trimEnd, String.toList_ofList]
  rw [String.toList_ofList, ← htrim] at hend
  exact h.cut (hend.isInfix.trans hstart.isInfix)

theorem Unmarked.trimEnd (h : Unmarked s) : Unmarked (trimEnd s) :=
  ⟨fun mark hmark hopens => h.first mark hmark (hopens.trans (trimEnd_opening s)),
    h.below.cut (trimEnd_opening s).isInfix⟩

/-- A mark does not reach from one text into another that begins with a character of none. -/
theorem mark_in_first {xs ys mark : List Char} (hj : ∀ c ∈ ys.head?, c ∉ mark)
    (h : mark <+: xs ++ ys) : mark <+: xs := by
  rcases List.prefix_or_prefix_of_prefix h (List.prefix_append _ _) with hin | ⟨more, rfl⟩
  · exact hin
  · cases more with
    | nil => simp
    | cons c more =>
      obtain ⟨rest, hrest⟩ := (List.prefix_append_right_inj xs).mp h
      have hhead : c ∈ ys.head? := by simp [← hrest]
      exact absurd (by simp) (hj c hhead)

/-- Whether a text can follow another on its last line without making a mark of it. -/
def Joins (b : String) : Prop := ∀ c ∈ b.toList.head?, ∀ mark ∈ graphMarks, c ∉ mark.toList

instance (b : String) : Decidable (Joins b) :=
  decidable_of_iff
    (b.toList.head?.all (fun c => graphMarks.all fun mark => !mark.toList.contains c) = true)
    (by cases h : b.toList.head? <;> simp [Joins, h])

theorem UnmarkedBelow.append (ha : UnmarkedBelow a) (hb : UnmarkedBelow b) (hj : OneLine a ∨ Joins b) :
    UnmarkedBelow (a ++ b) := by
  intro before rest hab mark hmark hopens
  rw [String.toList_append, List.append_eq_append_iff] at hab
  rcases hab with ⟨more, -, hmore⟩ | ⟨last, hlast, hrest⟩
  · exact hb more rest hmore mark hmark hopens
  · cases last with
    | nil => exact hb [] rest (by simpa using hrest.symm) mark hmark hopens
    | cons c last =>
      obtain ⟨rfl, rfl⟩ : '\n' = c ∧ rest = last ++ b.toList := by simpa using hrest
      rcases hj with hline | hj
      · exact absurd (by rw [hlast]; simp) hline
      · exact ha before last hlast mark hmark
          (mark_in_first (fun c hc => hj c hc mark hmark) hopens)

theorem Unmarked.append (ha : Unmarked a) (hb : UnmarkedBelow b) (hj : Joins b) :
    Unmarked (a ++ b) := by
  refine ⟨fun mark hmark hopens => ha.first mark hmark ?_, ha.below.append hb (.inr hj)⟩
  rw [String.toList_append] at hopens
  exact mark_in_first (fun c hc => hj c hc mark hmark) hopens

theorem Foreign.unmarked (h : Foreign s) (hbelow : UnmarkedBelow s) : Unmarked s :=
  ⟨fun mark hmark => (h mark hmark).1, hbelow⟩

theorem unmarked_empty : Unmarked "" := ⟨by decide, OneLine.unmarkedBelow (by decide)⟩

end Composed

/-- The first line stands at the beginning of a text, and each later one behind a newline. -/
theorem lineList_places {cs first : List Char} {later : List (List Char)}
    (h : lineList cs = first :: later) : first <+: cs ∧
      ∀ l ∈ later, ∃ before rest, cs = before ++ '\n' :: rest ∧ l <+: rest := by
  -- All lines behind a newline are later ones, wherever that newline is.
  have hbelow : ∀ (head : List Char) {cs : List Char},
      (∀ first later, lineList cs = first :: later → first <+: cs ∧
        ∀ l ∈ later, ∃ before rest, cs = before ++ '\n' :: rest ∧ l <+: rest) →
      ∀ l ∈ lineList cs, ∃ before rest,
        head ++ '\n' :: cs = before ++ '\n' :: rest ∧ l <+: rest := by
    intro head cs ih l hl
    obtain ⟨first, later, hlines⟩ := List.exists_cons_of_ne_nil (List.ne_nil_of_mem hl)
    obtain ⟨hfirst, hlater⟩ := ih first later hlines
    rw [hlines] at hl
    rcases List.mem_cons.mp hl with rfl | hl
    · exact ⟨head, cs, rfl, hfirst⟩
    · obtain ⟨before, rest, rfl, hrest⟩ := hlater l hl
      exact ⟨head ++ '\n' :: before, rest, by simp, hrest⟩
  fun_induction lineList cs generalizing first later with
  | case1 => contradiction
  | case2 cs ih =>
    cases h
    exact ⟨List.nil_prefix, hbelow ['\r'] @ih⟩
  | case3 cs ih =>
    cases h
    exact ⟨List.nil_prefix, hbelow [] @ih⟩
  | case4 c cs =>
    cases h
    exact ⟨by simp, fun l hl => absurd hl List.not_mem_nil⟩
  | case5 c cs _ _ line lines hlines ih =>
    cases h
    obtain ⟨hfirst, hlater⟩ := ih hlines
    refine ⟨(List.prefix_cons_inj c).mpr hfirst, fun l hl => ?_⟩
    obtain ⟨before, rest, rfl, hrest⟩ := hlater l hl
    exact ⟨c :: before, rest, rfl, hrest⟩

theorem Unmarked.lines {s l mark : String} (h : Unmarked s) (hl : l ∈ lines s)
    (hmark : mark ∈ graphMarks) : startsWith l mark = false := by
  obtain ⟨cs, hcs, rfl⟩ := List.mem_map.mp hl
  rw [startsWith, Bool.eq_false_iff, Ne, List.isPrefixOf_iff_prefix, String.toList_ofList]
  intro hopens
  obtain ⟨first, later, hlines⟩ := List.exists_cons_of_ne_nil (List.ne_nil_of_mem hcs)
  obtain ⟨hfirst, hlater⟩ := lineList_places hlines
  rw [hlines] at hcs
  rcases List.mem_cons.mp hcs with rfl | hcs
  · exact h.first mark hmark (hopens.trans hfirst)
  · obtain ⟨before, rest, hs, hrest⟩ := hlater cs hcs
    exact h.below before rest hs mark hmark (hopens.trans hrest)

/-- A piece between newlines stands at the beginning of a text or behind a newline. -/
theorem intercalate_places {piece : List Char} {pieces : List (List Char)} (h : piece ∈ pieces) :
    piece <+: ['\n'].intercalate pieces ∨
      ∃ before rest, ['\n'].intercalate pieces = before ++ '\n' :: rest ∧ piece <+: rest := by
  induction pieces with
  | nil => cases h
  | cons first later ih =>
    cases later with
    | nil => simp [List.mem_singleton.mp h]
    | cons second later =>
      rw [List.intercalate_cons_cons]
      rcases List.mem_cons.mp h with rfl | h
      · exact .inl (by simp)
      · rcases ih h with hfirst | ⟨before, rest, hrest, hpiece⟩
        · exact .inr ⟨first, _, by simp, hfirst⟩
        · exact .inr ⟨first ++ '\n' :: before, rest, by simp [hrest], hpiece⟩

/-- What an output without marks is relayed by has none either. -/
theorem Unmarked.messages {bs : Bytes} (h : Unmarked (decodeLossy bs)) :
    ∀ text ∈ messages bs, Unmarked text := by
  intro text htext
  obtain ⟨line, hline, rfl⟩ := List.mem_map.mp htext
  have hpart : line ∈ ((decodeLossy bs).toList.splitOn '\n').map String.ofList := by
    unfold newlineLines at hline
    simp only at hline
    split at hline
    · exact List.dropLast_subset _ hline
    · exact hline
  obtain ⟨piece, hpiece, rfl⟩ := List.mem_map.mp hpart
  have hplaces := intercalate_places hpiece
  rw [List.intercalate_splitOn] at hplaces
  refine Unmarked.trimEnd ⟨fun mark hmark hopens => ?_, h.below.cut ?_⟩
  · rw [String.toList_ofList] at hopens
    rcases hplaces with hfirst | ⟨before, rest, hrest, hlater⟩
    · exact h.first mark hmark (hopens.trans hfirst)
    · exact h.below before rest hrest mark hmark (hopens.trans hlater)
  · rw [String.toList_ofList]
    rcases hplaces with hfirst | ⟨before, rest, hrest, hlater⟩
    · exact hfirst.isInfix
    · rw [hrest]
      exact hlater.isInfix.trans ⟨before ++ ['\n'], [], by simp⟩

end Text

namespace Summary

/-- How many lines of some messages are of a category where there is only to be graphed. -/
def graphLines (c : Category) (messages : List String) : Nat :=
  (linesOf .generating (some c) (Text.lines (written messages))).length

variable {c c' : Category} {text : String}

@[simp] theorem graphLines_nil : graphLines c [] = 0 := rfl

theorem graphLines_append (messages messages' : List String) :
    graphLines c (messages ++ messages') = graphLines c messages + graphLines c messages' := by
  rw [graphLines, written_append, Text.lines_append (Text.isLines_written messages), linesOf,
    List.filter_append, List.length_append]
  rfl

theorem graphLines_cons (messages : List String) :
    graphLines c (text :: messages) = graphLines c [text] + graphLines c messages :=
  graphLines_append [text] messages

/-- A message none of whose lines has a mark adds to neither count. -/
theorem graphLines_unmarked (h : Text.Unmarked text) (hc : c ∈ [Category.error, .success]) :
    graphLines c [text] = 0 := by
  have hended : Text.Unmarked (text ++ "\n") :=
    h.append (fun before rest hrest => by
      have : rest = [] := by
        have hlen := congrArg List.length hrest
        simp at hlen
        exact List.length_eq_zero_iff.mp (by omega)
      subst this
      decide) (by decide)
  have hwritten : written [text] = text ++ "\n" := by simp [written, String.join_cons]
  rw [graphLines, hwritten, List.length_eq_zero_iff, linesOf, List.filter_eq_nil_iff]
  intro l hl
  rw [decide_eq_true_iff, Category.of_eq_some, Category.holds,
    hended.lines hl (List.mem_map_of_mem hc)]
  exact Bool.false_ne_true

/-- A message that is one line counts as that line does. -/
theorem graphLines_line (hline : Text.OneLine text) (hlast : text.toList.getLast? ≠ some '\r')
    (hopens : Text.startsWith text (c'.opening .generating) = true) :
    graphLines c [text] = if c' = c then 1 else 0 := by
  have hof : Category.of .generating text = some c' := Category.of_eq_some.mpr hopens
  have hwritten : written [text] = text ++ "\n" := by simp [written, String.join_cons]
  have hdrop : Text.dropReturn text = text := if_neg hlast
  rw [graphLines, hwritten, Text.lines_ended hline, hdrop, linesOf]
  by_cases hc : c' = c
  · simp [hof, hc]
  · simp [hof, hc]

end Summary

end Regression
