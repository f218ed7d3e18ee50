import Regression.Proofs.Descriptions
import Regression.Skip

namespace Regression

namespace Text

variable {front last s w : String}

/-- What stands after the last newline of a text: all of it where there is none. -/
def lastLine (s : String) : String :=
  String.ofList (s.toList.reverse.takeWhile (· ≠ '\n')).reverse

theorem newline_not_mem_lastLine (s : String) : '\n' ∉ (lastLine s).toList := by
  intro h
  rw [lastLine, String.toList_ofList, List.mem_reverse] at h
  simpa using List.mem_takeWhile_imp h

theorem lastLine_append (hfront : IsLines front) (hlast : '\n' ∉ last.toList) :
    lastLine (front ++ last) = last := by
  have hback : ∀ c ∈ last.toList.reverse, decide (c ≠ '\n') = true := by
    intro c hc
    have hmem : c ∈ last.toList := List.mem_reverse.mp hc
    exact decide_eq_true fun h => hlast (h ▸ hmem)
  have hstop : front.toList.reverse.takeWhile (fun c => decide (c ≠ '\n')) = [] := by
    rcases hfront with rfl | hfront
    · rfl
    · obtain ⟨cs, hcs⟩ := List.getLast?_eq_some_iff.mp hfront
      simp [hcs]
  rw [lastLine, String.toList_append, List.reverse_append, List.takeWhile_append_of_pos hback, hstop,
    List.append_nil, List.reverse_reverse, String.ofList_toList]

/-- A text is whole lines and then what stands after the last newline. -/
theorem lastLine_cut (s : String) : ∃ front, s = front ++ lastLine s ∧ IsLines front := by
  have hcut := List.takeWhile_append_dropWhile (p := fun c => decide (c ≠ '\n'))
    (l := s.toList.reverse)
  refine ⟨String.ofList (s.toList.reverse.dropWhile fun c => decide (c ≠ '\n')).reverse, ?_, ?_⟩
  · rw [← String.toList_inj, String.toList_append, lastLine, String.toList_ofList,
      String.toList_ofList, ← List.reverse_append, hcut, List.reverse_reverse]
  · cases hrest : s.toList.reverse.dropWhile fun c => decide (c ≠ '\n') with
    | nil => exact .inl rfl
    | cons c cs =>
      have hc := List.head?_dropWhile_not (fun c => decide (c ≠ '\n')) s.toList.reverse
      rw [hrest] at hc
      have hnewline : c = '\n' := by simpa using hc
      exact .inr (by simp [hnewline])

theorem IsLines.append (hw : IsLines w) (hs : IsLines s) : IsLines (w ++ s) := by
  rcases hs with rfl | hs
  · rwa [String.append_empty]
  · obtain ⟨cs, hcs⟩ := List.getLast?_eq_some_iff.mp hs
    exact .inr (by simp [hcs])

/-- Whole lines before a text are not part of its last line. -/
theorem lastLine_after (hw : IsLines w) (s : String) : lastLine (w ++ s) = lastLine s := by
  obtain ⟨front, hs, hfront⟩ := lastLine_cut s
  have hwhole : w ++ s = w ++ front ++ lastLine s := by
    rw [String.append_assoc, ← hs]
  rw [hwhole, lastLine_append (hw.append hfront) (newline_not_mem_lastLine s)]

/-- White space before a text is at most white space before its last line. -/
theorem trim_lastLine (hw : Blank w) (s : String) : trim (lastLine (w ++ s)) = trim (lastLine s) := by
  obtain ⟨blanks, hcut, hblanks⟩ := lastLine_cut w
  obtain ⟨front, hs, hfront⟩ := lastLine_cut s
  have hrest : Blank (lastLine w) := by
    intro c hc
    refine hw c ?_
    rw [hcut, String.toList_append]
    exact List.mem_append_right _ hc
  rcases hfront with hfront | hfront
  · -- A text of one line, with the last blanks before it on that line.
    rw [hfront, String.empty_append] at hs
    have hwhole : w ++ s = blanks ++ (lastLine w ++ s) := by
      rw [← String.append_assoc, ← hcut]
    have hline : '\n' ∉ (lastLine w ++ s).toList := by
      rw [String.toList_append, List.mem_append, not_or]
      exact ⟨newline_not_mem_lastLine w, hs ▸ newline_not_mem_lastLine s⟩
    rw [hwhole, lastLine_append hblanks hline, ← hs, ← trim_blanks hrest blank_empty s,
      String.append_empty]
  · have hended : IsLines (w ++ front) := by
      obtain ⟨cs, hcs⟩ := List.getLast?_eq_some_iff.mp hfront
      exact .inr (by simp [hcs])
    have hwhole : w ++ s = w ++ front ++ lastLine s := by
      rw [String.append_assoc, ← hs]
    rw [hwhole, lastLine_append hended (newline_not_mem_lastLine s)]

theorem exists_seen (h : ¬Blank s) : ∃ front c back, s.toList = front ++ c :: back ∧
    isBlank c = false := by
  simp only [Blank, Classical.not_forall] at h
  obtain ⟨c, hc, hseen⟩ := h
  obtain ⟨front, back, hs⟩ := List.append_of_mem hc
  exact ⟨front, c, back, hs, Bool.eq_false_iff.mpr hseen⟩

theorem trimEnd_blank (h : Blank s) : trimEnd s = "" := by
  have hall : ∀ c ∈ s.toList.reverse, isBlank c = true := fun c hc => h c (List.mem_reverse.mp hc)
  rw [trimEnd, dropBlankEnd, List.dropWhile_eq_nil_iff.mpr hall]
  rfl

theorem trim_blank (h : Blank s) : trim s = "" := by
  rw [trim, dropBlankStart, List.dropWhile_eq_nil_iff.mpr h]
  rfl

/-- A text that is cut ends in something to be seen. -/
theorem trim_last {c : Char} (h : (trim s).toList.getLast? = some c) : isBlank c = false := by
  have hfirst := List.head?_dropWhile_not isBlank (dropBlankStart s.toList).reverse
  rw [trim, String.toList_ofList, dropBlankEnd, List.getLast?_reverse] at h
  rwa [h] at hfirst

theorem trim_subset (s : String) : (trim s).toList ⊆ s.toList := by
  intro c hc
  rw [trim, String.toList_ofList, dropBlankEnd, List.mem_reverse] at hc
  have hmem := List.mem_reverse.mp ((List.dropWhile_suffix isBlank).subset hc)
  exact (List.dropWhile_suffix isBlank).subset hmem

theorem trim_trim (s : String) : trim (trim s) = trim s :=
  calc trim (trim s) = trim (String.ofList (dropBlankStart s.toList)) := trim_dropBlankEnd _
    _ = trim (String.ofList s.toList) := trim_dropBlankStart _
    _ = trim s := by rw [String.ofList_toList]

/-- Both ends of a text are cut by cutting the end and then the blanks at the start. -/
theorem trimEnd_eq (s : String) : ∃ w, Blank w ∧ trimEnd s = w ++ trim s := by
  by_cases h : Blank s
  · exact ⟨"", blank_empty, by rw [trimEnd_blank h, trim_blank h, String.empty_append]⟩
  · obtain ⟨front, c, back, hs, hc⟩ := exists_seen h
    refine ⟨String.ofList (front.takeWhile isBlank), ?_, ?_⟩
    · intro d hd
      rw [String.toList_ofList] at hd
      exact List.all_eq_true.mp List.all_takeWhile d hd
    · rw [← String.toList_inj, String.toList_append, trimEnd, trim, String.toList_ofList,
        String.toList_ofList, String.toList_ofList, hs, dropBlankEnd_seen hc, drop_around hc,
        dropBlankStart, ← List.append_assoc, List.takeWhile_append_dropWhile]

/-- A text that begins with something to be seen is cut at its end only. -/
theorem trim_seen {c : Char} (hs : s.toList.head? = some c) (hc : isBlank c = false) :
    trim s = trimEnd s := by
  obtain ⟨cs, hcs⟩ := List.head?_eq_some_iff.mp hs
  have hnot : ¬isBlank c = true := Bool.eq_false_iff.mp hc
  rw [trim, dropBlankStart, hcs, List.dropWhile_cons_of_neg hnot, trimEnd, hcs]

/-- What is seen of a text ends its last line. -/
theorem trimEnd_append (h : ¬Blank s) (front : String) : trimEnd (front ++ s) = front ++ trimEnd s := by
  obtain ⟨before, c, back, hs, hc⟩ := exists_seen h
  rw [← String.toList_inj, String.toList_append, trimEnd, trimEnd, String.toList_ofList,
    String.toList_ofList, String.toList_append, hs, ← List.append_assoc, dropBlankEnd_seen hc,
    dropBlankEnd_seen hc, List.append_assoc]

end Text

namespace ConditionOutput

open Text (Blank IsLines lastLine trim trimEnd)

variable {output front last : String}

/-- A line that asks to skip, whatever white space is around its word. -/
def Affirms (line : String) : Prop := trim line = "1" ∨ trim line = "True"

theorem saysSkip_iff (line : String) : saysSkip line = true ↔ Affirms line := by
  simp [saysSkip, Affirms]

/-- What is left of an output without the white space around it is whole lines and one more. -/
theorem parse_cut (h : trim output = front ++ last) (hfront : IsLines front)
    (hlast : '\n' ∉ last.toList) (hne : last ≠ "") :
    parse output = { skip := saysSkip last, info := Text.lines front } := by
  have hlines : Text.lines (trim output) = Text.lines front ++ [last] := by
    rw [h, Text.lines_append hfront, Text.lines_last hlast, if_neg hne]
  simp [parse, hlines]

theorem parse_blank (h : Blank output) : parse output = { skip := false, info := [] } := by
  rw [parse, Text.trim_blank h]
  rfl

theorem lastLine_trim_ne (h : ¬Blank output) : lastLine (trim output) ≠ "" := by
  intro hnone
  obtain ⟨front, hcut, hfront⟩ := Text.lastLine_cut (trim output)
  rw [hnone, String.append_empty] at hcut
  rw [← hcut] at hfront
  rcases hfront with hempty | hnewline
  · obtain ⟨before, c, back, hs, hc⟩ := Text.exists_seen h
    rw [trim, hs, Text.drop_around hc, String.ofList_eq_empty_iff] at hempty
    exact absurd hempty (by simp)
  · exact absurd (Text.trim_last hnewline) (by decide)

/-- The line that decides is the last one that is more than white space. -/
theorem parse_skip_iff (output : String) :
    (parse output).skip = true ↔ Affirms (lastLine (trimEnd output)) := by
  by_cases h : Blank output
  · rw [parse_blank h, Text.trimEnd_blank h]
    exact ⟨nofun, fun h => h.elim (absurd · (by decide)) (absurd · (by decide))⟩
  · obtain ⟨w, hw, hcut⟩ := Text.trimEnd_eq output
    obtain ⟨front, hfront, hended⟩ := Text.lastLine_cut (trim output)
    rw [parse_cut hfront hended (Text.newline_not_mem_lastLine _) (lastLine_trim_ne h), hcut, Affirms,
      Text.trim_lastLine hw, saysSkip_iff, Affirms]

/-- White space at the end makes no difference. -/
theorem parse_append_blank {w : String} (hw : Blank w) (output : String) :
    parse (output ++ w) = parse output := by
  have htrim := Text.trim_blanks Text.blank_empty hw output
  rw [String.empty_append] at htrim
  rw [parse, htrim, parse]

/-- Lines before an output are no part of the decision. -/
theorem parse_skip_append (hfront : IsLines front) (h : ¬Blank output) :
    (parse (front ++ output)).skip = (parse output).skip := by
  rw [Bool.eq_iff_iff, parse_skip_iff, parse_skip_iff, Text.trimEnd_append h,
    Text.lastLine_after hfront]

/-- Remarks that a script can print: lines, the first of which begins with something to be seen. -/
structure Remarks (infos : List String) : Prop where
  lines : ∀ l ∈ infos, '\n' ∉ l.toList ∧ l.toList.getLast? ≠ some '\r'
  opening : ∀ first ∈ infos.head?, ∃ c, first.toList.head? = some c ∧ Text.isBlank c = false

section

variable {infos : List String} {v ending : String}

/-- Lines that are joined to one more are whole lines before it. -/
theorem intercalate_concat (ending v : String) (infos : List String) :
    String.intercalate ending (infos ++ [v]) = String.join (infos.map (· ++ ending)) ++ v := by
  induction infos with
  | nil => simp [String.intercalate_singleton]
  | cons l ls ih =>
    rw [List.cons_append, String.intercalate_cons_of_ne_nil (by simp), ih]
    simp [String.join_cons, String.append_assoc]

/-- Either ending of a line is taken off it again. -/
theorem Remarks.lines_join (h : Remarks infos) (hending : ending = "\n" ∨ ending = "\r\n") :
    IsLines (String.join (infos.map (· ++ ending))) ∧
      Text.lines (String.join (infos.map (· ++ ending))) = infos := by
  obtain ⟨mark, rfl, hmark⟩ : ∃ mark, ending = mark ++ "\n" ∧ (mark = "" ∨ mark = "\r") := by
    rcases hending with rfl | rfl
    · exact ⟨"", rfl, .inl rfl⟩
    · exact ⟨"\r", rfl, .inr rfl⟩
  have hjoin : String.join (infos.map (· ++ (mark ++ "\n"))) = written (infos.map (· ++ mark)) := by
    simp [written, Function.comp_def, String.append_assoc]
  have hline : ∀ l ∈ infos.map (· ++ mark), '\n' ∉ l.toList := by
    intro l hl
    obtain ⟨info, hinfo, rfl⟩ := List.mem_map.mp hl
    have hplain := (h.lines info hinfo).1
    rcases hmark with rfl | rfl <;> simpa using hplain
  have hback : ∀ l ∈ infos, Text.dropReturn (l ++ mark) = l := by
    intro l hl
    have hlast := (h.lines l hl).2
    rcases hmark with rfl | rfl
    · rw [String.append_empty, Text.dropReturn, if_neg hlast]
    · simp [Text.dropReturn]
  have hread : infos.map (Text.dropReturn ∘ (· ++ mark)) = infos.map id :=
    List.map_congr_left hback
  rw [hjoin, Text.lines_written hline, List.map_map, hread, List.map_id]
  exact ⟨Text.isLines_written _, rfl⟩

/-- What is printed as remarks and a verdict is read as these. -/
theorem Remarks.parse (h : Remarks infos) (hending : ending = "\n" ∨ ending = "\r\n")
    (hv : '\n' ∉ v.toList) (hseen : ¬Blank v) :
    ConditionOutput.parse (String.intercalate ending (infos ++ [v])) =
      { skip := saysSkip v, info := infos } := by
  obtain ⟨hwhole, hlines⟩ := h.lines_join hending
  obtain ⟨before, c, back, hcut, hc⟩ := Text.exists_seen hseen
  rw [intercalate_concat]
  cases infos with
  | nil =>
    -- Without remarks the verdict loses the white space on both sides of it.
    have hlast : '\n' ∉ (trim v).toList := fun hmem => hv (Text.trim_subset v hmem)
    have hne : trim v ≠ "" := by
      rw [trim, hcut, Text.drop_around hc]
      simp
    have hword : saysSkip (trim v) = saysSkip v := by
      rw [Bool.eq_iff_iff, saysSkip_iff, saysSkip_iff, Affirms, Affirms, Text.trim_trim]
    have htrim : trim (String.join ([].map (· ++ ending)) ++ v) = "" ++ trim v := by simp
    have hnone : Text.lines "" = [] := by simp [Text.lines, Text.lineList]
    rw [← hword, parse_cut htrim (.inl rfl) hlast hne, hnone]
  | cons first rest =>
    obtain ⟨d, hfirst, hd⟩ := h.opening first rfl
    have hlast : '\n' ∉ (trimEnd v).toList := fun hmem =>
      hv ((Text.trimEnd_opening v).subset hmem)
    have hne : trimEnd v ≠ "" := by
      rw [trimEnd, hcut, Text.dropBlankEnd_seen hc]
      simp
    have hword : saysSkip (trimEnd v) = saysSkip v := by
      rw [Bool.eq_iff_iff, saysSkip_iff, saysSkip_iff, Affirms, Affirms, trimEnd,
        Text.trim_dropBlankEnd, String.ofList_toList]
    have hopening : (String.join ((first :: rest).map (· ++ ending)) ++ v).toList.head? = some d := by
      obtain ⟨cs, hcs⟩ := List.head?_eq_some_iff.mp hfirst
      simp [String.join_cons, hcs]
    have htrim := (Text.trim_seen hopening hd).trans (Text.trimEnd_append hseen _)
    rw [← hword, parse_cut htrim hwhole hlast hne, hlines]

end

/-- A printed output is judged by its last line that is more than white space alone, and read as the
lines that it was made of. -/
theorem parse_decides (output : String) :
    ((parse output).skip = true ↔ Affirms (lastLine (trimEnd output))) ∧
    (Blank output → parse output = { skip := false, info := [] }) ∧
    (∀ w, Blank w → parse (output ++ w) = parse output) ∧
    (∀ front, IsLines front → ¬Blank output →
      (parse (front ++ output)).skip = (parse output).skip) ∧
    ∀ infos v ending, Remarks infos → (ending = "\n" ∨ ending = "\r\n") → '\n' ∉ v.toList →
      ¬Blank v → output = String.intercalate ending (infos ++ [v]) →
      (parse output).info = infos ∧ ((parse output).skip = true ↔ Affirms v) := by
  refine ⟨parse_skip_iff output, parse_blank, fun w hw => parse_append_blank hw output,
    fun front hfront h => parse_skip_append hfront h, ?_⟩
  rintro infos v ending hinfos hending hv hseen rfl
  rw [hinfos.parse hending hv hseen]
  exact ⟨rfl, saysSkip_iff v⟩

theorem parse_decides_printed :
    Blank " \r\n" ∧ IsLines "0\n" ∧ ¬Blank "comm: none\r\n\r\n\tTrue" ∧
      Remarks ["comm: none", ""] ∧
      (parse "comm: none\r\n\r\n\tTrue").info = ["comm: none", ""] ∧
      (parse ("0\n" ++ "comm: none\r\n\r\n\tTrue")).skip = true ∧
      (parse ("comm: none\r\n\r\n\tTrue" ++ " \r\n")).skip = true := by
  have hblank : Blank " \r\n" := by decide
  have hlines : IsLines "0\n" := .inr (by decide)
  have hseen : ¬Blank "comm: none\r\n\r\n\tTrue" := by decide
  have hremarks : Remarks ["comm: none", ""] := by
    refine ⟨by decide, fun first hfirst => ?_⟩
    cases hfirst
    exact ⟨'c', by decide, by decide⟩
  obtain ⟨-, -, hafter, hbefore, hread⟩ := parse_decides "comm: none\r\n\r\n\tTrue"
  obtain ⟨hinfo, hskip⟩ := hread ["comm: none", ""] "\tTrue" "\r\n" hremarks (.inr rfl)
    (by decide) (by decide) (by decide)
  have haffirmed := hskip.mpr (.inr (by decide))
  refine ⟨hblank, hlines, hseen, hremarks, hinfo, ?_, ?_⟩
  · rw [hbefore _ hlines hseen, haffirmed]
  · rw [hafter _ hblank, haffirmed]

end ConditionOutput

end Regression
