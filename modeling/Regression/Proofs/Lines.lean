import Regression.Text.Blank
import Regression.Text.Lines

namespace Regression.Text

/-- A text that ends in something to be seen is not cut. -/
theorem trimEnd_seen {t : String} {c : Char} (ht : t.toList.getLast? = some c)
    (hc : isBlank c = false) (s : String) : trimEnd (s ++ t) = s ++ t := by
  obtain ⟨cs, hcs⟩ := List.getLast?_eq_some_iff.mp ht
  have hkeep : dropBlankEnd (s ++ t).toList = (s ++ t).toList := by
    simp [dropBlankEnd, hcs, hc]
  rw [trimEnd, hkeep, String.ofList_toList]

/-- A newline after such a text is cut. -/
theorem trimEnd_line {t : String} {c : Char} (ht : t.toList.getLast? = some c)
    (hc : isBlank c = false) (s : String) : trimEnd (s ++ t ++ "\n") = s ++ t := by
  obtain ⟨cs, hcs⟩ := List.getLast?_eq_some_iff.mp ht
  have hnewline : isBlank '\n' = true := by decide
  have hkeep : dropBlankEnd (s ++ t ++ "\n").toList = (s ++ t).toList := by
    simp [dropBlankEnd, hcs, hc, hnewline]
  rw [trimEnd, hkeep, String.ofList_toList]

theorem trimEnd_empty : trimEnd "" = "" := by decide

/-- A character that ends no line begins the first one. -/
theorem lineList_cons {c : Char} {cs : List Char} (hreturn : ∀ more, c = '\r' → cs ≠ '\n' :: more)
    (hnewline : c ≠ '\n') :
    lineList (c :: cs) = match lineList cs with
      | [] => [[c]]
      | l :: ls => (c :: l) :: ls :=
  lineList.eq_4 c cs hreturn hnewline

theorem lineList_eq_nil {cs : List Char} (h : lineList cs = []) : cs = [] := by
  fun_induction lineList cs with
  | case1 => rfl
  | case2 | case3 | case4 | case5 => simp_all

/-- A newline ends what stands before it, whatever follows. -/
theorem lineList_newline (cs rest : List Char) :
    lineList (cs ++ '\n' :: rest) = lineList (cs ++ ['\n']) ++ lineList rest := by
  fun_induction lineList cs with
  | case1 => simp [lineList]
  | case2 cs ih => simpa [lineList] using ih
  | case3 cs ih => simpa [lineList] using ih
  | case4 c cs hreturn hnewline hnone ih =>
    rw [lineList_eq_nil hnone]
    -- A return right before the newline belongs to the ending.
    by_cases hc : c = '\r'
    · simp [hc, lineList]
    · simp [lineList_cons (c := c) (by simp [hc]) hnewline, lineList]
  | case5 c cs hreturn hnewline l ls hsome ih =>
    have hmore : ∀ rest more, c = '\r' → cs ++ '\n' :: rest ≠ '\n' :: more := by
      intro rest more hc hcs
      cases cs with
      | nil => simp [lineList] at hsome
      | cons d ds =>
        rw [List.cons_append, List.cons.injEq] at hcs
        exact hreturn ds hc (by rw [hcs.1])
    rw [List.cons_append, List.cons_append, lineList_cons (hmore rest) hnewline,
      lineList_cons (hmore []) hnewline, ih]
    cases hfirst : lineList (cs ++ ['\n']) with
    | nil => cases List.append_ne_nil_of_right_ne_nil cs (List.cons_ne_nil _ _) (lineList_eq_nil hfirst)
    | cons l' ls' => rfl

/-- A line is of the characters of the text, and no newline is in it. -/
theorem mem_of_lineList {cs l : List Char} (h : l ∈ lineList cs) :
    ∀ c ∈ l, c ∈ cs ∧ c ≠ '\n' := by
  intro d hd
  fun_induction lineList cs generalizing l with
  | case1 => contradiction
  | case2 cs ih | case3 cs ih =>
    rcases List.mem_cons.mp h with rfl | h
    · contradiction
    · have := ih h hd
      simp_all
  | case4 c cs _ hnewline hnone ih =>
    rw [List.mem_singleton] at h
    subst h
    rw [List.mem_singleton] at hd
    subst hd
    exact ⟨List.mem_cons_self, hnewline⟩
  | case5 c cs _ hnewline first ls hsome ih =>
    rcases List.mem_cons.mp h with rfl | h
    · rcases List.mem_cons.mp hd with rfl | hd
      · exact ⟨List.mem_cons_self, hnewline⟩
      · have hfirst : first ∈ lineList cs := by simp [hsome]
        exact (ih hfirst hd).imp_left (List.mem_cons_of_mem _)
    · have hrest : l ∈ lineList cs := by simp [hsome, h]
      exact (ih hrest hd).imp_left (List.mem_cons_of_mem _)

/-- What begins with characters that end no line has them at the start of its first line. -/
theorem lineList_opening {opening : List Char} (hnewline : '\n' ∉ opening)
    (hreturn : '\r' ∉ opening) (hne : opening ≠ []) (cs : List Char) :
    ∃ l ls, lineList (opening ++ cs) = (opening ++ l) :: ls := by
  induction opening with
  | nil => exact absurd rfl hne
  | cons c opening ih =>
    rw [List.mem_cons, not_or] at hnewline hreturn
    have hhere : ∀ more, c = '\r' → opening ++ cs ≠ '\n' :: more := fun more hc =>
      absurd hc.symm hreturn.1
    have hcons := lineList_cons hhere (Ne.symm hnewline.1)
    rw [List.cons_append, hcons]
    cases opening with
    | nil =>
      rw [List.nil_append]
      cases lineList cs with
      | nil => exact ⟨[], [], rfl⟩
      | cons l ls => exact ⟨l, ls, rfl⟩
    | cons d opening =>
      obtain ⟨l, ls, hl⟩ := ih hnewline.2 hreturn.2 (List.cons_ne_nil d opening)
      rw [hl]
      exact ⟨l, ls, rfl⟩

/-- A text that is empty or ends with a newline ends a line where it ends. -/
theorem lines_append {a : String} (ha : a = "" ∨ a.toList.getLast? = some '\n') (b : String) :
    lines (a ++ b) = lines a ++ lines b := by
  rcases ha with rfl | ha
  · simp [lines, lineList]
  · obtain ⟨cs, hcs⟩ := List.getLast?_eq_some_iff.mp ha
    have happend : (a ++ b).toList = cs ++ '\n' :: b.toList := by simp [hcs]
    rw [lines, happend, lineList_newline, List.map_append, ← hcs]
    rfl

/-- A text without the return at its end. -/
def dropReturn (s : String) : String :=
  if s.toList.getLast? = some '\r' then String.ofList s.toList.dropLast else s

theorem dropReturn_cut (s : String) :
    ∃ rest, s.toList = (dropReturn s).toList ++ rest ∧ (rest = [] ∨ rest = ['\r']) := by
  by_cases h : s.toList.getLast? = some '\r'
  · refine ⟨['\r'], ?_, .inr rfl⟩
    obtain ⟨cs, hcs⟩ := List.getLast?_eq_some_iff.mp h
    simp [dropReturn, hcs]
  · refine ⟨[], ?_, .inl rfl⟩
    rw [dropReturn, if_neg h, List.append_nil]

theorem dropReturn_of_not_mem {s : String} (h : '\r' ∉ s.toList) : dropReturn s = s := by
  have hlast : s.toList.getLast? ≠ some '\r' := fun hs => h (List.mem_of_getLast? hs)
  rw [dropReturn, if_neg hlast]

/-- A return before a newline belongs to the ending of the line. -/
theorem lineList_ended {cs : List Char} (h : '\n' ∉ cs) :
    lineList (cs ++ ['\n']) = [if cs.getLast? = some '\r' then cs.dropLast else cs] := by
  induction cs with
  | nil => simp [lineList]
  | cons c cs ih =>
    rw [List.mem_cons, not_or] at h
    cases cs with
    | nil =>
      by_cases hc : c = '\r'
      · simp [hc, lineList]
      · have hne : ∀ more, c = '\r' → ['\n'] ≠ '\n' :: more := fun _ hr => absurd hr hc
        simp [lineList_cons hne (Ne.symm h.1), hc, lineList]
    | cons d ds =>
      have hne : ∀ more, c = '\r' → (d :: ds) ++ ['\n'] ≠ '\n' :: more := by
        intro more _ hd
        exact h.2 (by simp_all)
      rw [List.cons_append, lineList_cons hne (Ne.symm h.1), ih h.2, List.getLast?_cons_cons,
        List.dropLast_cons_cons]
      by_cases hlast : (d :: ds).getLast? = some '\r'
      · rw [if_pos hlast, if_pos hlast]
      · rw [if_neg hlast, if_neg hlast]

theorem lines_ended {l : String} (h : '\n' ∉ l.toList) : lines (l ++ "\n") = [dropReturn l] := by
  have hnewline : (l ++ "\n").toList = l.toList ++ ['\n'] := by simp
  rw [lines, hnewline, lineList_ended h, dropReturn, List.map_singleton]
  split
  · rfl
  · rw [String.ofList_toList]

theorem mem_of_lines {s l : String} (h : l ∈ lines s) :
    ∀ c ∈ l.toList, c ∈ s.toList ∧ c ≠ '\n' := by
  obtain ⟨cs, hcs, rfl⟩ := List.mem_map.mp h
  rw [String.toList_ofList]
  exact mem_of_lineList hcs

theorem newline_not_mem_lines {s l : String} (h : l ∈ lines s) : '\n' ∉ l.toList :=
  fun hc => (mem_of_lines h _ hc).2 rfl

/-- What a text begins with, its first line begins with. -/
theorem lines_opening {opening s : String} (hnewline : '\n' ∉ opening.toList)
    (hreturn : '\r' ∉ opening.toList) (hne : opening ≠ "") (h : startsWith s opening = true) :
    ∃ l ls, lines s = l :: ls ∧ startsWith l opening = true := by
  obtain ⟨rest, hs⟩ := List.isPrefixOf_iff_prefix.mp h
  obtain ⟨l, ls, hl⟩ := lineList_opening hnewline hreturn (by simpa using hne) rest
  refine ⟨String.ofList (opening.toList ++ l), ls.map String.ofList, ?_, ?_⟩
  · rw [lines, ← hs, hl, List.map_cons]
  · simp [startsWith]

/-- Only the end of a text is cut. -/
theorem trimEnd_opening (s : String) : (trimEnd s).toList <+: s.toList := by
  have hsuffix : s.toList.reverse.dropWhile isBlank <:+ s.toList.reverse :=
    List.dropWhile_suffix _
  rw [trimEnd, String.toList_ofList, dropBlankEnd]
  exact List.reverse_suffix.mp (by simpa using hsuffix)

theorem trimEnd_cut (s : String) :
    ∃ rest, s.toList = (trimEnd s).toList ++ rest ∧ ∀ c ∈ rest, isBlank c = true := by
  refine ⟨(s.toList.reverse.takeWhile isBlank).reverse, ?_, ?_⟩
  · rw [trimEnd, String.toList_ofList, dropBlankEnd, ← List.reverse_append,
      List.takeWhile_append_dropWhile, List.reverse_reverse]
  · intro c hc
    exact List.all_eq_true.mp List.all_takeWhile c (List.mem_reverse.mp hc)

theorem startsWith_self (a b : String) : startsWith (a ++ b) a = true := by
  rw [startsWith, List.isPrefixOf_iff_prefix, String.toList_append]
  exact List.prefix_append _ _

theorem startsWith_append {a head : String} (h : startsWith a head = true) (b : String) :
    startsWith (a ++ b) head = true := by
  rw [startsWith, List.isPrefixOf_iff_prefix] at h ⊢
  rw [String.toList_append]
  exact h.trans (List.prefix_append _ _)

/-- A text that begins otherwise does not become a line by being cut. -/
theorem trimEnd_ne {text line opening : String} (hline : startsWith line opening = true)
    (h : startsWith text opening = false) : trimEnd text ≠ line := by
  rintro rfl
  rw [startsWith, List.isPrefixOf_iff_prefix] at hline
  refine Bool.eq_false_iff.mp h ?_
  rw [startsWith, List.isPrefixOf_iff_prefix]
  exact hline.trans (trimEnd_opening text)

/-- What is cut off a text takes no beginning away from it that ends otherwise. -/
theorem startsWith_cut {s t : String} {rest : List Char} {head : String}
    (hs : s.toList = t.toList ++ rest) (hlast : ∀ c ∈ rest, head.toList.getLast? ≠ some c) :
    startsWith s head = startsWith t head := by
  rw [Bool.eq_iff_iff]
  simp only [startsWith, List.isPrefixOf_iff_prefix, hs]
  constructor
  · intro h
    rcases List.prefix_or_prefix_of_prefix h (List.prefix_append _ _) with hp | ⟨more, hmore⟩
    · exact hp
    · rw [← hmore, List.prefix_append_right_inj] at h
      rcases List.eq_nil_or_concat more with rfl | ⟨front, d, rfl⟩
      · exact ⟨[], by simp [← hmore]⟩
      · have hd : d ∈ rest := h.subset (by simp)
        exact absurd (by simp [← hmore]) (hlast d hd)
  · exact fun h => h.trans (List.prefix_append _ _)

theorem not_mem_digits {c : Char} (hc : c.isDigit = false) (n : Nat) : c ∉ Nat.toDigits 10 n := by
  intro h
  have hdigit := Nat.isDigit_of_mem_toDigits (by decide) (by decide) h
  exact Bool.false_ne_true (hc.symm.trans hdigit)

/-- What two texts begin with that differ before either ends, no text begins with both of. -/
theorem startsWith_append_false {a b head : String} (h : startsWith a head = false)
    (h' : startsWith head a = false) : startsWith (a ++ b) head = false := by
  refine Bool.eq_false_iff.mpr fun hboth => ?_
  rw [startsWith, List.isPrefixOf_iff_prefix, String.toList_append] at hboth
  rcases List.prefix_or_prefix_of_prefix hboth (List.prefix_append _ _) with hp | hp
  · exact Bool.eq_false_iff.mp h (List.isPrefixOf_iff_prefix.mpr hp)
  · exact Bool.eq_false_iff.mp h' (List.isPrefixOf_iff_prefix.mpr hp)

/-- A text is cut at the first mark. -/
theorem cutAt_append {mark : Char} {front : List Char} (h : mark ∉ front) (rest : List Char) :
    cutAt mark (front ++ mark :: rest) = some (front, rest) := by
  induction front with
  | nil => simp [cutAt]
  | cons c cs ih =>
    obtain ⟨hc, hcs⟩ : mark ≠ c ∧ mark ∉ cs := by simpa using h
    simp [cutAt, Ne.symm hc, ih hcs]

theorem cutAt_none {mark : Char} {cs : List Char} (h : mark ∉ cs) : cutAt mark cs = none := by
  induction cs with
  | nil => rfl
  | cons c cs ih =>
    obtain ⟨hc, hcs⟩ : mark ≠ c ∧ mark ∉ cs := by simpa using h
    simp [cutAt, Ne.symm hc, ih hcs]

theorem of_cutAt {mark : Char} {cs front rest : List Char}
    (h : cutAt mark cs = some (front, rest)) : cs = front ++ mark :: rest := by
  induction cs generalizing front with
  | nil => cases h
  | cons c cs ih =>
    simp only [cutAt] at h
    split at h
    · next hc =>
      cases h
      rw [hc, List.nil_append]
    · obtain ⟨⟨front', rest'⟩, hcut, heq⟩ := Option.map_eq_some_iff.mp h
      cases heq
      rw [ih hcut, List.cons_append]

end Regression.Text

namespace Regression

/-- The lines of some messages. -/
def written (messages : List String) : String := String.join (messages.map (· ++ "\n"))

theorem written_append (ms ms' : List String) :
    written (ms ++ ms') = written ms ++ written ms' := by
  simp [written, String.join_append]

theorem written_cons (message : String) (ms : List String) :
    written (message :: ms) = message ++ "\n" ++ written ms := by
  simp [written, String.join_cons]

/-- A text of whole lines, after which a line begins. -/
def Text.IsLines (s : String) : Prop := s = "" ∨ s.toList.getLast? = some '\n'

theorem Text.isLines_written (messages : List String) : IsLines (written messages) := by
  rcases List.eq_nil_or_concat messages with rfl | ⟨front, last, rfl⟩
  · exact .inl rfl
  · exact .inr (by simp [written])

/-- Lines that are written and read are the lines but for the return at the end of each. -/
theorem Text.lines_written {ls : List String} (h : ∀ l ∈ ls, '\n' ∉ l.toList) :
    lines (written ls) = ls.map dropReturn := by
  induction ls with
  | nil => rfl
  | cons l ls ih =>
    have hends : (l ++ "\n").toList.getLast? = some '\n' := by simp
    rw [written_cons, lines_append (.inr hends), lines_ended (h l List.mem_cons_self),
      ih fun l hl => h l (List.mem_cons_of_mem _ hl), List.map_cons, List.singleton_append]

end Regression
