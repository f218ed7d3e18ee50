import Regression.Proofs.Tally

namespace Regression

namespace Text

theorem occursIn_iff {part cs : List Char} : occursIn part cs = true ↔ part <:+: cs := by
  induction cs with
  | nil => simp [occursIn]
  | cons c cs ih => simp [occursIn, List.infix_cons_iff, ih]

theorem startsWith_dropReturn {head : String} (hlast : head.toList.getLast? ≠ some '\r')
    (s : String) : startsWith (dropReturn s) head = startsWith s head := by
  obtain ⟨rest, hs, hrest⟩ := dropReturn_cut s
  refine (startsWith_cut hs fun c hc => ?_).symm
  rcases hrest with rfl | rfl
  · contradiction
  · rw [List.mem_singleton.mp hc]
    exact hlast

end Text

variable {marker : SuccessMarker} {line : String}

open Text (dropReturn)

theorem Category.of_dropReturn (line : String) :
    of marker (dropReturn line) = of marker line := by
  have hholds : holds marker (dropReturn line) = holds marker line := by
    funext c
    have hlast : (c.opening marker).toList.getLast? ≠ some '\r' := by
      cases marker <;> cases c <;> decide
    exact Text.startsWith_dropReturn hlast line
  rw [of, hholds, of]

namespace Tag

/-- A line that begins so passes by what it goes on with. -/
theorem passes_of_append {opening : String} {rest : List Char}
    (hline : line.toList = opening.toList ++ rest) (hnewline : '\n' ∉ line.toList) :
    passes marker opening line = true ↔ marker.opening.toList <:+: rest := by
  have hstarts : Text.startsWith line opening = true := by
    rw [Text.startsWith, List.isPrefixOf_iff_prefix, hline]
    exact List.prefix_append _ _
  have hwhole : rest.takeWhile (· ≠ '\n') = rest := by
    have hall : ∀ c ∈ rest, decide (c ≠ '\n') = true := by
      intro c hc
      rw [decide_eq_true_iff]
      rintro rfl
      exact hnewline (hline ▸ List.mem_append_right _ hc)
    have hnil : (rest ++ []).takeWhile (· ≠ '\n') = rest ++ [] :=
      List.takeWhile_append_of_pos hall
    simpa using hnil
  have hdrop : line.toList.drop opening.length = rest := by
    rw [hline, ← String.length_toList, List.drop_left]
  rw [passes, hstarts, Bool.true_and, hdrop, hwhole, Text.occursIn_iff]

/-- A line passes or not whether or not it ends with a return. -/
theorem passes_dropReturn {opening : String} (hlast : opening.toList.getLast? ≠ some '\r')
    (hnewline : '\n' ∉ line.toList) :
    passes marker opening (dropReturn line) = passes marker opening line := by
  have hsame := Text.startsWith_dropReturn hlast line
  cases hstarts : Text.startsWith line opening with
  | false => rw [passes, passes, hsame, hstarts, Bool.false_and, Bool.false_and]
  | true =>
    rw [hstarts, Text.startsWith, List.isPrefixOf_iff_prefix] at hsame
    obtain ⟨rest, hrest⟩ := hsame
    obtain ⟨cut, hline, hcut⟩ := Text.dropReturn_cut line
    have hnewline' : '\n' ∉ (dropReturn line).toList := by
      intro h
      exact hnewline (hline ▸ List.mem_append_left _ h)
    rw [← hrest, List.append_assoc] at hline
    rw [Bool.eq_iff_iff, passes_of_append hrest.symm hnewline', passes_of_append hline hnewline]
    rcases hcut with rfl | rfl
    · rw [List.append_nil]
    · rw [List.infix_concat_iff]
      have hends : ¬marker.opening.toList <:+ rest ++ ['\r'] := by
        rintro ⟨before, hbefore⟩
        have hreturn := congrArg List.getLast? hbefore
        cases marker <;> simp [SuccessMarker.opening] at hreturn
      exact (or_iff_right hends).symm

theorem of_eq_some {t : Tag} : of marker line = some t ↔ holds marker line t = true := by
  refine ⟨fun h => List.find?_some h, find?_of_unique holds_unique ?_⟩
  cases t <;> simp [all]

theorem of_dropReturn {t : Tag} (ht : t ≠ .skippedStdin) (hnewline : '\n' ∉ line.toList) :
    of marker (dropReturn line) = some t ↔ of marker line = some t := by
  rw [of_eq_some, of_eq_some]
  cases t with
  | skippedStdin => contradiction
  | passingSuppression | passingFuture =>
    simp only [holds]
    rw [passes_dropReturn (by decide) hnewline]

end Tag

namespace Summary

variable {lines : List String}

theorem linesOf_dropReturn (c : Option Category) (lines : List String) :
    linesOf marker c (lines.map dropReturn) = (linesOf marker c lines).map dropReturn := by
  simp [linesOf, List.filter_map, Function.comp_def, Category.of_dropReturn]

theorem tagged_dropReturn {t : Tag} (ht : t ≠ .skippedStdin)
    (h : ∀ l ∈ lines, '\n' ∉ l.toList) :
    tagged marker t (lines.map dropReturn) = tagged marker t lines := by
  rw [tagged, tagged, List.countP_map]
  apply List.countP_congr
  intro l hl
  simp [Tag.of_dropReturn ht (h l hl)]

theorem linesOf_linesOf (c c' : Option Category) (lines : List String) :
    linesOf marker c (linesOf marker c' lines) = if c = c' then linesOf marker c lines else [] := by
  rw [linesOf, linesOf, List.filter_filter]
  split
  · next h => simp [h, linesOf]
  · next h =>
    rw [List.filter_eq_nil_iff]
    intro l _ hl
    simp only [Bool.and_eq_true, decide_eq_true_eq] at hl
    exact h (hl.1.symm.trans hl.2)

theorem tagged_linesOf (t : Tag) (c : Option Category) (lines : List String) :
    tagged marker t (linesOf marker c lines) = if t.category = c then tagged marker t lines else 0 := by
  rw [tagged, linesOf, List.countP_filter, tagged]
  split
  · next h =>
    apply List.countP_congr
    intro l _
    have hcategory : Tag.of marker l = some t → Category.of marker l = c := fun ht =>
      (Tag.category_of ht).trans h
    simpa using hcategory
  · next h =>
    rw [List.countP_eq_zero]
    intro l _ hl
    simp only [Bool.and_eq_true, decide_eq_true_eq] at hl
    exact h ((Tag.category_of hl.1).symm.trans hl.2)

/-- The lines that the block of a summary repeats, in its order. -/
def repeated (marker : SuccessMarker) (lines : List String) : List String :=
  linesOf marker (some .error) lines ++ linesOf marker (some .suppression) lines ++
    linesOf marker (some .future) lines ++ linesOf marker (some .warning) lines

theorem linesOf_repeated (c : Category) (lines : List String) :
    linesOf marker (some c) (repeated marker lines) =
      if c = .success then [] else linesOf marker (some c) lines := by
  have happend : ∀ xs ys, linesOf marker (some c) (xs ++ ys) =
      linesOf marker (some c) xs ++ linesOf marker (some c) ys := fun _ _ => List.filter_append ..
  simp only [repeated, happend, linesOf_linesOf]
  cases c <;> simp

theorem tagged_repeated {t : Tag} (ht : t ≠ .skippedStdin) (lines : List String) :
    tagged marker t (repeated marker lines) = tagged marker t lines := by
  have happend : ∀ xs ys, tagged marker t (xs ++ ys) = tagged marker t xs + tagged marker t ys :=
    fun _ _ => List.countP_append
  simp only [repeated, happend, tagged_linesOf]
  cases t with
  | skippedStdin => contradiction
  | passingSuppression | passingFuture => simp [Tag.category]

theorem mem_repeated {l : String} (h : l ∈ repeated marker lines) :
    l ∈ lines ∧ ∃ c, Category.of marker l = some c := by
  simp only [repeated, linesOf, List.mem_append, List.mem_filter, decide_eq_true_eq] at h
  rcases h with ((h | h) | h) | h
  all_goals exact ⟨h.1, _, h.2⟩

/-- The lines of a block are counted as they were, but for the return at the end of each. -/
theorem tally_repeated (h : ∀ l ∈ lines, '\n' ∉ l.toList) :
    tally marker ((repeated marker lines).map dropReturn) = { tally marker lines with
      successes := 0
      skippedStdin := 0
      failureLines := written ((linesOf marker (some .error) lines).map dropReturn)
      suppressionLines := written ((linesOf marker (some .suppression) lines).map dropReturn)
      futureLines := written ((linesOf marker (some .future) lines).map dropReturn)
      warningLines := written ((linesOf marker (some .warning) lines).map dropReturn) } := by
  have htagged : ∀ t, t ≠ .skippedStdin →
      tagged marker t ((repeated marker lines).map dropReturn) = tagged marker t lines := by
    intro t ht
    rw [tagged_dropReturn ht fun l hl => h l (mem_repeated hl).1, tagged_repeated ht]
  have hskipped : tagged marker .skippedStdin ((repeated marker lines).map dropReturn) = 0 := by
    rw [tagged, List.countP_map, List.countP_eq_zero]
    intro l hl ht
    obtain ⟨-, c, hc⟩ := mem_repeated hl
    have hnone := Tag.category_of (of_decide_eq_true ht)
    rw [Category.of_dropReturn, hc] at hnone
    contradiction
  simp [tally, linesOf_dropReturn, linesOf_repeated, htagged, hskipped]

/-- A line that counts as nothing. -/
def Plain (marker : SuccessMarker) (line : String) : Prop :=
  Category.of marker line = none ∧ Tag.of marker line = none

/-- A beginning that lines of a category and lines with a tag do not share. -/
def foreign (marker : SuccessMarker) (head : String) : Bool :=
  (Category.all.map (Category.opening marker) ++ Tag.all.map Tag.opening).all fun opening =>
    !Text.startsWith opening head && !Text.startsWith head opening

theorem plain_of_foreign {head : String} (hforeign : foreign marker head = true)
    (h : Text.startsWith line head = true) : Plain marker line := by
  have hapart : ∀ opening ∈ Category.all.map (Category.opening marker) ++ Tag.all.map Tag.opening,
      ¬Text.startsWith line opening = true := by
    intro opening hmem hopening
    have hboth := List.all_eq_true.mp hforeign opening hmem
    rcases Text.startsWith_both hopening h with hstarts | hstarts
    · simp [hstarts] at hboth
    · simp [hstarts] at hboth
  constructor
  · apply List.find?_eq_none.mpr
    intro c hc
    exact hapart _ (List.mem_append_left _ (List.mem_map_of_mem hc))
  · apply List.find?_eq_none.mpr
    intro t ht hholds
    exact hapart _ (List.mem_append_right _ (List.mem_map_of_mem ht)) (Tag.startsWith_opening hholds)

theorem tally_plain (h : ∀ l ∈ lines, Plain marker l) : tally marker lines = {} := by
  have hlines : ∀ c, linesOf marker (some c) lines = [] := by
    intro c
    rw [linesOf, List.filter_eq_nil_iff]
    intro l hl
    simp [(h l hl).1]
  have htags : ∀ t, tagged marker t lines = 0 := by
    intro t
    rw [tagged, List.countP_eq_zero]
    intro l hl
    simp [(h l hl).2]
  simp [tally, hlines, htags, written]

/-- The line that opens the block of a summary. -/
def header (date : String) : String := "[Test Summary - " ++ date ++ "]"

/-- The lines that close it. -/
def closing (s : Summary) : List String :=
  ["[Summary: #Successes = " ++ toString s.successes ++ " | #Failures = " ++ toString s.failures ++
      " | #Futures = " ++ toString s.futures ++ " | #Warnings = " ++ toString s.warnings ++ " ]",
    "[Summary: #Passing Suppressions = " ++ toString s.passingSuppressions ++
      " | #Passing Futures = " ++ toString s.passingFutures ++ " ]",
    "[END]"]

/-- A block is lines, each ended by a newline. -/
theorem render_eq (lines : List String) (date : String) :
    (tally marker lines).render date =
      written (header date :: repeated marker lines ++ closing (tally marker lines)) := by
  have hheader : "]\n" = "]" ++ "\n" := rfl
  have hcounts : " ]\n[Summary: #Passing Suppressions = " =
      " ]" ++ "\n" ++ "[Summary: #Passing Suppressions = " := rfl
  have hend : " ]\n[END]\n" = " ]" ++ "\n" ++ "[END]" ++ "\n" := rfl
  have hnone : written [] = "" := rfl
  unfold render header
  simp only [hheader, hcounts, hend, tally, closing, repeated, List.cons_append, written_cons,
    written_append, hnone, String.append_assoc, String.append_empty, -String.reduceAppend]

theorem newline_not_mem_closing (s : Summary) : ∀ l ∈ closing s, '\n' ∉ l.toList := by
  have hdigits : ∀ n, '\n' ∉ Nat.toDigits 10 n := Text.not_mem_digits (by decide)
  intro l hl
  simp only [closing, List.mem_cons, List.not_mem_nil, or_false] at hl
  rcases hl with rfl | rfl | rfl
  · simp [hdigits]
  · simp [hdigits]
  · decide

/-- How the lines of a block begin that it does not repeat. -/
def heads : List String :=
  ["[Test Summary - ", "[Summary: #Successes = ", "[Summary: #Passing Suppressions = ", "[END]"]

theorem plain_head {head : String} (h : head ∈ heads) (rest : String) :
    Plain marker (dropReturn (head ++ rest)) := by
  have hheads : ∀ head ∈ heads,
      foreign marker head = true ∧ head.toList.getLast? ≠ some '\r' := by
    cases marker <;> decide
  apply plain_of_foreign (hheads head h).1
  rw [Text.startsWith_dropReturn (hheads head h).2]
  exact Text.startsWith_self _ _

theorem plain_header (date : String) : Plain marker (dropReturn (header date)) := by
  unfold header
  rw [String.append_assoc]
  exact plain_head (by simp [heads]) _

theorem plain_closing (s : Summary) : ∀ l ∈ s.closing, Plain marker (dropReturn l) := by
  intro l hl
  simp only [closing, List.mem_cons, List.not_mem_nil, or_false, String.append_assoc] at hl
  rcases hl with rfl | rfl | rfl
  · exact plain_head (by simp [heads]) _
  · exact plain_head (by simp [heads]) _
  · rw [← String.append_empty (s := "[END]")]
    exact plain_head (by simp [heads]) _

theorem combine_empty (s : Summary) : s.combine {} = s := by
  simp [combine]

/-- The block is scanned as the lines that it repeats. -/
theorem ofLog_render (marker : SuccessMarker) {date : String} (hdate : '\n' ∉ date.toList)
    (log : String) :
    ofLog marker ((ofLog marker log).render date) =
      tally marker ((repeated marker (Text.lines log)).map dropReturn) := by
  have hnewlines : ∀ l ∈ header date :: repeated marker (Text.lines log) ++
      closing (ofLog marker log), '\n' ∉ l.toList := by
    intro l hl
    rw [List.cons_append, List.mem_cons, List.mem_append] at hl
    rcases hl with rfl | hl | hl
    · unfold header
      simpa using hdate
    · exact Text.newline_not_mem_lines (mem_repeated hl).1
    · exact newline_not_mem_closing _ l hl
  have hheader : tally marker [dropReturn (header date)] = {} := by
    apply tally_plain
    intro l hl
    rw [List.mem_singleton.mp hl]
    exact plain_header date
  have hclosing : tally marker ((closing (ofLog marker log)).map dropReturn) = {} := by
    apply tally_plain
    intro l hl
    obtain ⟨l', hl', rfl⟩ := List.mem_map.mp hl
    exact plain_closing _ l' hl'
  rw [ofLog_eq marker log] at hnewlines hclosing ⊢
  rw [ofLog_eq, render_eq, Text.lines_written hnewlines, List.cons_append, List.map_cons,
    List.map_append, ← List.singleton_append, tally_append, tally_append, hheader, hclosing,
    empty_combine, combine_empty]

end Summary

open Summary (ofLog)

/-- What the scan of a block finds again of the log that the block is of. -/
structure Rescans (marker : SuccessMarker) (log block : String) : Prop where
  failures : (ofLog marker block).failures = (ofLog marker log).failures
  futures : (ofLog marker block).futures = (ofLog marker log).futures
  warnings : (ofLog marker block).warnings = (ofLog marker log).warnings
  passingSuppressions :
    (ofLog marker block).passingSuppressions = (ofLog marker log).passingSuppressions
  passingFutures : (ofLog marker block).passingFutures = (ofLog marker log).passingFutures
  successes : (ofLog marker block).successes = 0
  skippedStdin : (ofLog marker block).skippedStdin = 0
  blocks : '\r' ∉ log.toList →
    (ofLog marker block).failureLines = (ofLog marker log).failureLines ∧
    (ofLog marker block).suppressionLines = (ofLog marker log).suppressionLines ∧
    (ofLog marker block).futureLines = (ofLog marker log).futureLines ∧
    (ofLog marker block).warningLines = (ofLog marker log).warningLines
  /-- After the log itself, what the block repeats is counted a second time. -/
  behind : log = "" ∨ log.toList.getLast? = some '\n' →
    (ofLog marker (log ++ block)).failures = 2 * (ofLog marker log).failures ∧
    (ofLog marker (log ++ block)).futures = 2 * (ofLog marker log).futures ∧
    (ofLog marker (log ++ block)).warnings = 2 * (ofLog marker log).warnings ∧
    (ofLog marker (log ++ block)).passingSuppressions =
      2 * (ofLog marker log).passingSuppressions ∧
    (ofLog marker (log ++ block)).passingFutures = 2 * (ofLog marker log).passingFutures ∧
    (ofLog marker (log ++ block)).successes = (ofLog marker log).successes ∧
    (ofLog marker (log ++ block)).skippedStdin = (ofLog marker log).skippedStdin

/-- The block that closes a log says what the log says, whatever was written into it. -/
theorem Summary.render_rescans (marker : SuccessMarker) (log : String) {date : String}
    (hdate : '\n' ∉ date.toList) : Rescans marker log ((ofLog marker log).render date) := by
  have hlog := ofLog_eq marker log
  have hblock := ofLog_render marker hdate log
  rw [tally_repeated fun l hl => Text.newline_not_mem_lines hl, ← hlog] at hblock
  constructor
  · rw [hblock]
  · rw [hblock]
  · rw [hblock]
  · rw [hblock]
  · rw [hblock]
  · rw [hblock]
  · rw [hblock]
  · intro hreturn
    have hsame : ∀ c, (linesOf marker c (Text.lines log)).map dropReturn =
        linesOf marker c (Text.lines log) := by
      intro c
      have hkeep : ∀ l ∈ linesOf marker c (Text.lines log), dropReturn l = id l := by
        intro l hl
        apply Text.dropReturn_of_not_mem
        intro hmem
        exact hreturn (Text.mem_of_lines (List.mem_filter.mp hl).1 _ hmem).1
      rw [List.map_congr_left hkeep, List.map_id]
    rw [hblock, hlog]
    simp [tally, hsame]
  · intro hends
    rw [ofLog_eq, Text.lines_append hends, tally_append, ← ofLog_eq, ← ofLog_eq, hblock]
    simp only [combine]
    omega

theorem Summary.render_rescans_returned :
    '\n' ∉ "Thu May  2 2024\r".toList ∧
      Rescans .matching "[Error matching a\r\r\nFuture (x) [Success matching a\n"
        ((ofLog .matching "[Error matching a\r\r\nFuture (x) [Success matching a\n").render
          "Thu May  2 2024\r") :=
  ⟨by decide, render_rescans .matching _ (by decide)⟩

end Regression
