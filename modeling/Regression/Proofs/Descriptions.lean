import Mathlib.Data.List.TakeWhile
import Regression.Proofs.Lines
import Regression.Proofs.Tools
import Regression.Proofs.Variables
import Regression.Toolchain

namespace Regression

namespace Text

/-- White space and nothing else. -/
def Blank (s : String) : Prop := ∀ c ∈ s.toList, isBlank c = true

instance : DecidablePred Blank := fun s =>
  List.decidableBAll (fun c => isBlank c = true) s.toList

theorem blank_empty : Blank "" := fun _ hc => nomatch hc

theorem dropBlankEnd_blank {w : List Char} (hw : ∀ c ∈ w, isBlank c = true) (cs : List Char) :
    dropBlankEnd (cs ++ w) = dropBlankEnd cs := by
  have hback : ∀ c ∈ w.reverse, isBlank c = true := fun c hc => hw c (List.mem_reverse.mp hc)
  rw [dropBlankEnd, List.reverse_append, List.dropWhile_append_of_pos hback, dropBlankEnd]

/-- White space around a text makes no difference to what it is without white space around it. -/
theorem trim_blanks {w w' : String} (hw : Blank w) (hw' : Blank w') (s : String) :
    trim (w ++ s ++ w') = trim s := by
  have hstart : dropBlankStart (w ++ s ++ w').toList = dropBlankStart (s.toList ++ w'.toList) := by
    rw [String.toList_append, String.toList_append, List.append_assoc, dropBlankStart,
      List.dropWhile_append_of_pos hw, dropBlankStart]
  have hend : dropBlankEnd (dropBlankStart (s.toList ++ w'.toList)) =
      dropBlankEnd (dropBlankStart s.toList) := by
    rw [dropBlankStart, List.dropWhile_append]
    split
    · next hnone =>
      rw [dropBlankStart, List.isEmpty_iff.mp hnone, List.dropWhile_eq_nil_iff.mpr hw']
    · exact dropBlankEnd_blank hw' _
  rw [trim, hstart, hend, trim]

theorem trim_return (s : String) : trim (dropReturn s) = trim s := by
  obtain ⟨rest, hs, hrest⟩ := dropReturn_cut s
  have hblank : Blank (String.ofList rest) := by
    intro c hc
    rw [String.toList_ofList] at hc
    rcases hrest with rfl | rfl
    · contradiction
    · rw [List.mem_singleton.mp hc]
      decide
  have happend : "" ++ dropReturn s ++ String.ofList rest = s := by
    rw [← String.toList_inj]
    simp [hs]
  rw [← trim_blanks blank_empty hblank (dropReturn s), happend]

/-- Nothing is cut that stands before a character that is seen. -/
theorem dropBlankEnd_seen {c : Char} (hc : isBlank c = false) (front back : List Char) :
    dropBlankEnd (front ++ c :: back) = front ++ c :: dropBlankEnd back := by
  have hnot : ¬isBlank c = true := Bool.eq_false_iff.mp hc
  rw [dropBlankEnd, List.reverse_append, List.reverse_cons, List.append_assoc,
    List.dropWhile_append]
  split
  · next hnone => simp [dropBlankEnd, List.isEmpty_iff.mp hnone, hnot]
  · simp [dropBlankEnd]

/-- White space before a character that is seen ends before it, and white space after it begins
after it. -/
theorem drop_around {c : Char} (hc : isBlank c = false) (front back : List Char) :
    dropBlankEnd (dropBlankStart (front ++ c :: back)) =
      dropBlankStart front ++ c :: dropBlankEnd back := by
  have hnot : ¬isBlank c = true := Bool.eq_false_iff.mp hc
  have hstart : dropBlankStart (front ++ c :: back) = dropBlankStart front ++ c :: back := by
    rw [dropBlankStart, List.dropWhile_append]
    split
    · next hnone =>
      rw [dropBlankStart, List.isEmpty_iff.mp hnone, List.dropWhile_cons_of_neg hnot,
        List.nil_append]
    · rfl
  rw [hstart, dropBlankEnd_seen hc]

theorem trim_dropBlankStart (cs : List Char) :
    trim (String.ofList (dropBlankStart cs)) = trim (String.ofList cs) := by
  have hblank : Blank (String.ofList (cs.takeWhile isBlank)) := by
    intro c hc
    rw [String.toList_ofList] at hc
    exact List.all_eq_true.mp List.all_takeWhile c hc
  have happend : String.ofList (cs.takeWhile isBlank) ++ String.ofList (dropBlankStart cs) ++ "" =
      String.ofList cs := by
    rw [← String.toList_inj]
    simp [dropBlankStart]
  rw [← trim_blanks hblank blank_empty, happend]

theorem trim_dropBlankEnd (cs : List Char) :
    trim (String.ofList (dropBlankEnd cs)) = trim (String.ofList cs) := by
  obtain ⟨rest, hcs, hrest⟩ := trimEnd_cut (String.ofList cs)
  rw [trimEnd, String.toList_ofList, String.toList_ofList] at hcs
  have hblank : Blank (String.ofList rest) := by rwa [Blank, String.toList_ofList]
  have happend : "" ++ String.ofList (dropBlankEnd cs) ++ String.ofList rest = String.ofList cs := by
    rw [← String.toList_inj]
    simp [← hcs]
  rw [← trim_blanks blank_empty hblank, happend]

theorem lineList_last {cs : List Char} (h : '\n' ∉ cs) :
    lineList cs = if cs = [] then [] else [cs] := by
  induction cs with
  | nil => rfl
  | cons c cs ih =>
    rw [List.mem_cons, not_or] at h
    have hmore : ∀ more, c = '\r' → cs ≠ '\n' :: more := by
      rintro more _ rfl
      exact h.2 List.mem_cons_self
    rw [lineList_cons hmore (Ne.symm h.1), ih h.2, if_neg (List.cons_ne_nil c cs)]
    by_cases hnil : cs = []
    · rw [if_pos hnil, hnil]
    · rw [if_neg hnil]

/-- What stands after the last newline is a line unless it is empty. -/
theorem lines_last {l : String} (h : '\n' ∉ l.toList) : lines l = if l = "" then [] else [l] := by
  rw [lines, lineList_last h]
  by_cases hl : l = ""
  · simp [hl]
  · simp [hl]

end Text

namespace Environment

variable {name : String}

/-- A name that is bound once is bound to the value that stands with it. -/
theorem lookup_eq_some_iff {bs : List (String × String)} (honce : (bs.map Prod.fst).Nodup)
    {value : String} : bs.lookup name = some value ↔ (name, value) ∈ bs := by
  induction bs with
  | nil => simp
  | cons b bs ih =>
    obtain ⟨k, v⟩ := b
    obtain ⟨hk, hrest⟩ := List.nodup_cons.mp honce
    rw [lookup_binding, List.mem_cons, Prod.mk.injEq]
    by_cases h : name = k
    · subst h
      have hfar : (name, value) ∉ bs := by
        intro hmem
        have hkey : name ∈ bs.map Prod.fst := List.mem_map.mpr ⟨(name, value), hmem, rfl⟩
        exact hk hkey
      simp [hfar, eq_comm]
    · simp [h, ih hrest]

/-- Bindings in another order bind the same. -/
theorem get?_of_perm {e : Environment} {bs : List (String × String)} (h : bs.Perm e.bindings)
    (name : String) : bs.lookup name = e.get? name := by
  have honce : (e.bindings.map Prod.fst).Nodup := by
    refine List.pairwise_map.mpr (e.ordered.imp ?_)
    intro a b hlt heq
    exact String.lt_irrefl b.1 (heq ▸ hlt)
  have honce' : (bs.map Prod.fst).Nodup := (h.map Prod.fst).nodup_iff.mpr honce
  ext value
  rw [get?, lookup_eq_some_iff honce', lookup_eq_some_iff honce, h.mem_iff]

/-- The variables with a certain kind of name. -/
def only (e : Environment) (keep : String → Bool) : Environment :=
  ⟨e.bindings.filter (keep ·.1), e.ordered.filter _⟩

theorem get?_only (e : Environment) (keep : String → Bool) (name : String) :
    (e.only keep).get? name = if keep name then e.get? name else none := by
  simp only [get?, only]
  induction e.bindings with
  | nil => simp
  | cons b bs ih =>
    obtain ⟨k, v⟩ := b
    rw [lookup_binding]
    cases hk : keep k with
    | true =>
      rw [List.filter_cons_of_pos (by simp [hk]), lookup_binding, ih]
      by_cases h : name = k
      · simp [h, hk]
      · simp [h]
    | false =>
      rw [List.filter_cons_of_neg (by simp [hk]), ih]
      by_cases h : name = k
      · simp [h, hk]
      · simp [h]

end Environment

namespace Toolchain

open Text (Blank trim startsWith)

theorem toList_trim_marked (name value : String) : (trim (name ++ "=" ++ value)).toList =
    Text.dropBlankStart name.toList ++ '=' :: Text.dropBlankEnd value.toList := by
  have hmark : Text.isBlank '=' = false := by decide
  have happend : (name ++ "=" ++ value).toList = name.toList ++ '=' :: value.toList := by simp
  rw [trim, String.toList_ofList, happend, Text.drop_around hmark]

/-- A text with a mark in it binds what stands before the mark, if that begins as names do. -/
theorem binding?_marked {name : String} (hname : '=' ∉ name.toList) (value : String) :
    binding? (name ++ "=" ++ value) =
      if startsWith (trim name) "CHPL_" then some (trim name, trim value) else none := by
  have hfront : '=' ∉ Text.dropBlankStart name.toList :=
    fun h => hname ((List.dropWhile_subset _) h)
  have hopening : startsWith (String.ofList (Text.dropBlankStart name.toList)) "CHPL_" =
      startsWith (trim name) "CHPL_" := by
    obtain ⟨rest, hcut, hrest⟩ := Text.trimEnd_cut (String.ofList (Text.dropBlankStart name.toList))
    have htrim : Text.trimEnd (String.ofList (Text.dropBlankStart name.toList)) = trim name := by
      rw [Text.trimEnd, String.toList_ofList, trim]
    rw [htrim] at hcut
    refine Text.startsWith_cut hcut fun c hc hlast => ?_
    have hunder : '_' = c := by simpa using hlast
    exact absurd (hrest c hc) (by rw [← hunder]; decide)
  have hn : trim (String.ofList (Text.dropBlankStart name.toList)) = trim name := by
    rw [Text.trim_dropBlankStart, String.ofList_toList]
  have hv : trim (String.ofList (Text.dropBlankEnd value.toList)) = trim value := by
    rw [Text.trim_dropBlankEnd, String.ofList_toList]
  simp only [binding?, Text.cut?, toList_trim_marked, Text.cutAt_append hfront, Option.map_some,
    Option.bind_eq_bind, Option.bind_some, hopening, hn, hv]

theorem binding?_unmarked {line : String} (h : '=' ∉ line.toList) : binding? line = none := by
  have hsub : '=' ∉ (trim line).toList := by
    intro hmem
    rw [trim, String.toList_ofList, Text.dropBlankEnd, List.mem_reverse] at hmem
    have hstart := List.mem_reverse.mp ((List.dropWhile_subset _) hmem)
    exact h ((List.dropWhile_subset _) hstart)
  simp [binding?, Text.cut?, Text.cutAt_none hsub]

/-- A line that does not begin as names do binds nothing, with a mark or without. -/
theorem binding?_foreign {line : String} (h : startsWith (trim line) "CHPL_" = false) :
    binding? line = none := by
  by_cases hmark : '=' ∈ line.toList
  · obtain ⟨front, back, hline, hfront⟩ := List.eq_append_cons_of_mem hmark
    have hwhole : line = String.ofList front ++ "=" ++ String.ofList back := by
      rw [← String.toList_inj]
      simp [hline]
    have hopening : (trim (String.ofList front)).toList <+: (trim line).toList := by
      have hcut := Text.trimEnd_opening (String.ofList (Text.dropBlankStart front))
      rw [Text.trimEnd, String.toList_ofList, String.toList_ofList] at hcut
      rw [hwhole, toList_trim_marked, trim, String.toList_ofList, String.toList_ofList]
      exact hcut.trans (List.prefix_append _ _)
    have hname : startsWith (trim (String.ofList front)) "CHPL_" = false := by
      refine Bool.eq_false_iff.mpr fun hstarts => Bool.eq_false_iff.mp h ?_
      rw [startsWith, List.isPrefixOf_iff_prefix] at hstarts ⊢
      exact hstarts.trans hopening
    rw [hwhole, binding?_marked (by simpa using hfront), hname, if_neg Bool.false_ne_true]
  · exact binding?_unmarked hmark

theorem binding?_return (line : String) : binding? (Text.dropReturn line) = binding? line := by
  rw [binding?, Text.trim_return, binding?]

/-- A name as the lines of a description can give it. -/
structure Named (name : String) : Prop where
  opening : startsWith name "CHPL_" = true
  unmarked : '=' ∉ name.toList
  trimmed : trim name = name

/-- Lines that bind names to values, one after the other, among lines that say nothing. -/
inductive Spells : List String → List (String × String) → Prop where
  | done : Spells [] []
  | binding {name value : String} (hname : Named name) (hvalue : trim value = value)
    {before between after beyond : String} (hbefore : Blank before) (hbetween : Blank between)
    (hafter : Blank after) (hbeyond : Blank beyond) {ls : List String}
    {bs : List (String × String)} (rest : Spells ls bs) :
    Spells ((before ++ name ++ between ++ "=" ++ (after ++ value ++ beyond)) :: ls)
      ((name, value) :: bs)
  | aside {line : String} (h : '=' ∉ line.toList ∨ startsWith (trim line) "CHPL_" = false)
    {ls : List String} {bs : List (String × String)} (rest : Spells ls bs) : Spells (line :: ls) bs

theorem unmarked_of_blank {w : String} (hw : Blank w) : '=' ∉ w.toList := by
  intro h
  have hmark := hw _ h
  exact absurd hmark (by decide)

theorem Spells.bindings {ls : List String} {bs : List (String × String)} (h : Spells ls bs) :
    ls.filterMap binding? = bs := by
  induction h with
  | done => rfl
  | @binding name value hname hvalue before between after beyond hbefore hbetween hafter hbeyond ls
      bs rest ih =>
    have hunmarked : '=' ∉ (before ++ name ++ between).toList := by
      simp [unmarked_of_blank hbefore, unmarked_of_blank hbetween, hname.unmarked]
    have hline : binding? (before ++ name ++ between ++ "=" ++ (after ++ value ++ beyond)) =
        some (name, value) := by
      rw [binding?_marked hunmarked, Text.trim_blanks hbefore hbetween,
        Text.trim_blanks hafter hbeyond, hname.trimmed, hvalue, if_pos hname.opening]
    rw [List.filterMap_cons_some hline, ih]
  | aside h rest ih =>
    have hline := h.elim binding?_unmarked binding?_foreign
    rw [List.filterMap_cons_none hline, ih]

/-- The line that binds a name and nothing else. -/
def entry (b : String × String) : String := b.1 ++ "=" ++ b.2

theorem Spells.entries {bs : List (String × String)}
    (h : ∀ b ∈ bs, Named b.1 ∧ trim b.2 = b.2) : Spells (bs.map entry ++ [""]) bs := by
  induction bs with
  | nil => exact .aside (.inl (by decide)) .done
  | cons b bs ih =>
    obtain ⟨hname, hvalue⟩ := h b List.mem_cons_self
    have hfirst := Spells.binding hname hvalue Text.blank_empty Text.blank_empty Text.blank_empty
      Text.blank_empty (ih fun b' hb' => h b' (List.mem_cons_of_mem _ hb'))
    simpa [entry] using hfirst

/-- What the lines bind can be bound, and it stands in one of them. -/
theorem Spells.bound {ls : List String} {bs : List (String × String)} (h : Spells ls bs) :
    ∀ b ∈ bs, (Named b.1 ∧ trim b.2 = b.2) ∧ ∃ l ∈ ls, (entry b).toList ⊆ l.toList := by
  induction h with
  | done => exact fun _ hb => nomatch hb
  | binding hname hvalue _ _ _ _ _ ih =>
    refine List.forall_mem_cons.mpr ⟨⟨⟨hname, hvalue⟩, _, List.mem_cons_self, ?_⟩, fun b hb => ?_⟩
    · intro c hc
      simp only [entry, String.toList_append, List.mem_append] at hc ⊢
      rcases hc with (hc | hc) | hc
      · exact .inl (.inl (.inl (.inr hc)))
      · exact .inl (.inr hc)
      · exact .inr (.inl (.inr hc))
    · obtain ⟨hbound, l, hl, hsub⟩ := ih b hb
      exact ⟨hbound, l, List.mem_cons_of_mem _ hl, hsub⟩
  | aside _ _ ih =>
    intro b hb
    obtain ⟨hbound, l, hl, hsub⟩ := ih b hb
    exact ⟨hbound, l, List.mem_cons_of_mem _ hl, hsub⟩

theorem parse_written {ls : List String} {last : String}
    (hlines : ∀ l ∈ ls ++ [last], '\n' ∉ l.toList) :
    parse (written ls ++ last) = ⟨.ofList ((ls ++ [last]).filterMap binding?)⟩ := by
  have hls : (Text.lines (written ls)).filterMap binding? = ls.filterMap binding? := by
    rw [Text.lines_written fun l hl => hlines l (List.mem_append_left _ hl), List.filterMap_map]
    exact congrArg (ls.filterMap ·) (funext binding?_return)
  have hlast : (Text.lines last).filterMap binding? = [last].filterMap binding? := by
    rw [Text.lines_last (hlines last (List.mem_append_right _ List.mem_cons_self))]
    split
    · next hempty =>
      have hnone : binding? last = none := binding?_unmarked (by simp [hempty])
      rw [List.filterMap_cons_none hnone]
    · rfl
  rw [parse, Text.lines_append (Text.isLines_written ls), List.filterMap_append, hls, hlast,
    ← List.filterMap_append]

theorem parse_spelt {ls : List String} {last : String} {bs : List (String × String)}
    (hlines : ∀ l ∈ ls ++ [last], '\n' ∉ l.toList) (h : Spells (ls ++ [last]) bs) :
    parse (written ls ++ last) = ⟨.ofList bs⟩ := by
  rw [parse_written hlines, h.bindings]

theorem get?_ofList (bs : List (String × String)) (name : String) :
    get? ⟨.ofList bs⟩ name = bs.reverse.lookup name := by
  have hall : (Environment.ofList bs).get? name = (bs.reverse.lookup name).or none :=
    Environment.get?_setAll .empty bs
  rw [get?, hall, Option.or_none]

/-- What is taken from the environment is what it binds of the names that the description leaves
out. -/
theorem get?_withFallback (t : Toolchain) (e : Environment) (name : String) :
    (t.withFallback e).get? name =
      (t.get? name).or (if startsWith name "CHPL_" then e.get? name else none) := by
  let keep (n : String) := startsWith n "CHPL_" && !t.values.contains n
  have hmissing := Environment.get?_of_perm (e := e.only keep) (List.reverse_perm _) name
  rw [Environment.get?_only] at hmissing
  have hset : (t.withFallback e).get? name = ((e.only keep).bindings.reverse.lookup name).or
      (t.get? name) := Environment.get?_setAll t.values _
  rw [hset, hmissing]
  cases hname : t.get? name with
  | some value =>
    have hkeep : keep name = false := by
      have hcontains : t.values.contains name = true := by
        rw [Environment.contains, ← get?, hname, Option.isSome_some]
      simp [keep, hcontains]
    rw [hkeep, if_neg Bool.false_ne_true, Option.none_or, Option.some_or]
  | none =>
    have hkeep : keep name = startsWith name "CHPL_" := by
      have hcontains : t.values.contains name = false := by
        rw [Environment.contains, ← get?, hname, Option.isSome_none]
      simp [keep, hcontains]
    rw [hkeep, Option.or_none, Option.none_or]

/-- What the toolchain is asked for a description of itself. -/
def inquiry (utilDirectory : Path) (e : Environment) : Command :=
  { program := (utilDirectory / "printchplenv").text
    arguments := ["--all", "--internal", "--simple"]
    environment := e }

theorem query_on (utilDirectory : Path) (e : Environment) (m : Machine) :
    ((query utilDirectory e).on m).1.toOption =
      (Command.printed (m.tools m.commands (inquiry utilDirectory e) m.directory m.files)).map
        fun text => (parse text).withFallback e := by
  have hcapture : ((inquiry utilDirectory e).capture.on m).1.toOption =
      Command.printed (m.tools m.commands (inquiry utilDirectory e) m.directory m.files) := by
    simpa only [attempt_on] using
      congrArg Prod.fst (Command.attempt_capture_on (inquiry utilDirectory e) m)
  have hquery : (query utilDirectory e).on m = ((inquiry utilDirectory e).capture >>= fun output =>
      pure ((parse output).withFallback e)).on m := rfl
  rw [← hcapture, hquery, Job.on_bind]
  cases (inquiry utilDirectory e).capture.on m with
  | mk result m' => cases result <;> rfl

/-- How a text is read whose lines bind `bs`, one after the other. -/
structure Described (text : String) (bs : List (String × String)) : Prop where
  /-- Neither white space nor lines that bind nothing make a difference. -/
  plain : parse text = parse (written (bs.map entry))
  /-- The order of the lines makes none where each name is bound once. -/
  map : ∀ m : Environment, bs.Perm m.bindings → parse text = ⟨m⟩
  last : ∀ name, (parse text).get? name = bs.reverse.lookup name
  /-- Whatever it prints, the toolchain has the last word, and the environment has a say on names of
  the toolchain only. -/
  queried : ∀ utilDirectory e (m : Machine) printed,
    Command.printed (m.tools m.commands (inquiry utilDirectory e) m.directory m.files) =
      some printed →
    ∃ t, ((query utilDirectory e).on m).1 = .ok t ∧
      ∀ name, t.get? name = ((parse printed).get? name).or
        (if startsWith name "CHPL_" then e.get? name else none)

/-- A description is read as what its lines bind. -/
theorem parse_described {ls : List String} {last : String} {bs : List (String × String)}
    (hlines : ∀ l ∈ ls ++ [last], '\n' ∉ l.toList) (h : Spells (ls ++ [last]) bs) :
    Described (written ls ++ last) bs := by
  have hparse := parse_spelt hlines h
  constructor
  · have hplain : ∀ l ∈ bs.map entry ++ [""], '\n' ∉ l.toList := by
      intro l hl
      rcases List.mem_append.mp hl with hl | hl
      · obtain ⟨b, hb, rfl⟩ := List.mem_map.mp hl
        obtain ⟨-, line, hline, hsub⟩ := h.bound b hb
        exact fun hnewline => hlines line hline (hsub hnewline)
      · simp [List.mem_singleton.mp hl]
    have hentries := parse_spelt hplain (.entries fun b hb => (h.bound b hb).1)
    rw [String.append_empty] at hentries
    rw [hparse, hentries]
  · intro m hperm
    have hm : Environment.ofList bs = m := by
      refine Environment.ext_get? fun name => ?_
      exact (get?_ofList bs name).trans
        (Environment.get?_of_perm ((List.reverse_perm bs).trans hperm) name)
    rw [hparse, hm]
  · rw [hparse]
    exact get?_ofList bs
  · intro utilDirectory e m printed hprinted
    have hquery := query_on utilDirectory e m
    rw [hprinted, Option.map_some] at hquery
    refine ⟨(parse printed).withFallback e, ?_, get?_withFallback _ e⟩
    cases hresult : ((query utilDirectory e).on m).1 with
    | error error => rw [hresult] at hquery; cases hquery
    | ok t => rw [hresult] at hquery; cases hquery; rfl

theorem parse_described_twice :
    (∀ l ∈ [" CHPL_COMM =ugni\r", "# CHPL_COMM=gasnet"] ++ ["CHPL_COMM=\ta=b"], '\n' ∉ l.toList) ∧
      Spells ([" CHPL_COMM =ugni\r", "# CHPL_COMM=gasnet"] ++ ["CHPL_COMM=\ta=b"])
        [("CHPL_COMM", "ugni"), ("CHPL_COMM", "a=b")] ∧
      Described (written [" CHPL_COMM =ugni\r", "# CHPL_COMM=gasnet"] ++ "CHPL_COMM=\ta=b")
        [("CHPL_COMM", "ugni"), ("CHPL_COMM", "a=b")] := by
  have hlines : ∀ l ∈ [" CHPL_COMM =ugni\r", "# CHPL_COMM=gasnet"] ++ ["CHPL_COMM=\ta=b"],
      '\n' ∉ l.toList := by decide
  have hname : Named "CHPL_COMM" := ⟨by decide, by decide, by decide⟩
  have hlast : Spells ["CHPL_COMM=\ta=b"] [("CHPL_COMM", "a=b")] :=
    @Spells.binding "CHPL_COMM" "a=b" hname (by decide) "" "" "\t" "" (by decide) (by decide)
      (by decide) (by decide) [] [] .done
  have hspells : Spells ([" CHPL_COMM =ugni\r", "# CHPL_COMM=gasnet"] ++ ["CHPL_COMM=\ta=b"])
      [("CHPL_COMM", "ugni"), ("CHPL_COMM", "a=b")] :=
    @Spells.binding "CHPL_COMM" "ugni" hname (by decide) " " " " "" "\r" (by decide) (by decide)
      (by decide) (by decide) _ _ (.aside (.inr (by decide)) hlast)
  exact ⟨hlines, hspells, parse_described hlines hspells⟩

end Toolchain

end Regression
