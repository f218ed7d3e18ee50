import Regression.Proofs.Literals

namespace Regression.Json

/-- What a piece of a text is: a value, or what stands between the brackets of one. -/
inductive Part where
  | value (json : Json)
  | items (js : List Json)
  | members (ms : List (Option String × Json))

/-- The text of a string, if its letters denote one. -/
def denoted? (ls : List Letter) : Option String := (spell ls).map String.ofList

/-- How values, items and members are spelt. -/
inductive Spelt : List Char → Part → Prop where
  | null : Spelt ['n', 'u', 'l', 'l'] (.value .null)
  | yes : Spelt ['t', 'r', 'u', 'e'] (.value (.bool true))
  | no : Spelt ['f', 'a', 'l', 's', 'e'] (.value (.bool false))
  | number {cs : List Char} (h : IsNumber cs) : Spelt cs (.value (.number cs))
  | string {cs : List Char} {ls : List Letter} (h : Lettered cs ls) :
    Spelt ('"' :: (cs ++ ['"'])) (.value (.string (denoted? ls)))
  | noItems {w : List Char} (hw : Spaces w) : Spelt ('[' :: (w ++ [']'])) (.value (.array []))
  | array {cs : List Char} {js : List Json} (h : Spelt cs (.items js)) :
    Spelt ('[' :: (cs ++ [']'])) (.value (.array js))
  | noMembers {w : List Char} (hw : Spaces w) :
    Spelt ('\x7b' :: (w ++ ['\x7d'])) (.value (.object []))
  | object {cs : List Char} {ms : List (Option String × Json)} (h : Spelt cs (.members ms)) :
    Spelt ('\x7b' :: (cs ++ ['\x7d'])) (.value (.object ms))
  | item {before cs after : List Char} {json : Json} (hbefore : Spaces before)
    (hafter : Spaces after) (h : Spelt cs (.value json)) :
    Spelt (before ++ cs ++ after) (.items [json])
  | items {before cs after more : List Char} {json : Json} {js : List Json}
    (hbefore : Spaces before) (hafter : Spaces after) (h : Spelt cs (.value json))
    (rest : Spelt more (.items js)) :
    Spelt (before ++ cs ++ after ++ ',' :: more) (.items (json :: js))
  | member {start name between before cs after : List Char} {ls : List Letter} {json : Json}
    (hstart : Spaces start) (hname : Lettered name ls) (hbetween : Spaces between)
    (hbefore : Spaces before) (hafter : Spaces after) (h : Spelt cs (.value json)) :
    Spelt (start ++ '"' :: (name ++ '"' :: (between ++ ':' :: (before ++ cs ++ after))))
      (.members [(denoted? ls, json)])
  | members {start name between before cs after more : List Char} {ls : List Letter} {json : Json}
    {ms : List (Option String × Json)} (hstart : Spaces start) (hname : Lettered name ls)
    (hbetween : Spaces between) (hbefore : Spaces before) (hafter : Spaces after)
    (h : Spelt cs (.value json)) (rest : Spelt more (.members ms)) :
    Spelt (start ++ '"' :: (name ++ '"' :: (between ++ ':' :: (before ++ cs ++ after ++ ',' :: more))))
      (.members ((denoted? ls, json) :: ms))

theorem spelt_quote (s : String) : Spelt (quote s) (.value (.string (some s))) := by
  have hstring := Spelt.string (lettered_flatMap s.toList)
  rwa [denoted?, spell_letters] at hstring

/-- Items between which nothing but commas stands are spelt one by one. -/
theorem spelt_array {ι : Type} {l : List ι} {text : ι → List Char} {json : ι → Json}
    (h : ∀ i ∈ l, Spelt (text i) (.value (json i))) :
    Spelt ('[' :: ([','].intercalate (l.map text) ++ [']'])) (.value (.array (l.map json))) := by
  cases l with
  | nil => exact .noItems spaces_nil
  | cons i l =>
    refine .array ?_
    induction l generalizing i with
    | nil =>
      have hitem := Spelt.item spaces_nil spaces_nil (h i List.mem_cons_self)
      simpa using hitem
    | cons i' l ih =>
      obtain ⟨hi, hl⟩ := List.forall_mem_cons.mp h
      have hitems := Spelt.items spaces_nil spaces_nil hi (ih i' hl)
      simpa using hitems

theorem spelt_object {ι : Type} {l : List ι} {name : ι → String} {text : ι → List Char}
    {json : ι → Json} (h : ∀ i ∈ l, Spelt (text i) (.value (json i))) :
    Spelt ('\x7b' :: ([','].intercalate (l.map fun i => quote (name i) ++ ':' :: text i) ++ ['\x7d']))
      (.value (.object (l.map fun i => (some (name i), json i)))) := by
  have hname : ∀ s, some s = denoted? (s.toList.map letterOf) := fun s => (spell_letters s).symm
  cases l with
  | nil => exact .noMembers spaces_nil
  | cons i l =>
    refine .object ?_
    induction l generalizing i with
    | nil =>
      have hmember := Spelt.member spaces_nil (lettered_flatMap (name i).toList) spaces_nil spaces_nil
        spaces_nil (h i List.mem_cons_self)
      simpa [quote, hname] using hmember
    | cons i' l ih =>
      obtain ⟨hi, hl⟩ := List.forall_mem_cons.mp h
      have hmembers := Spelt.members spaces_nil (lettered_flatMap (name i).toList) spaces_nil
        spaces_nil spaces_nil hi (ih i' hl)
      simpa [quote, hname] using hmembers

theorem Spelt.of_object {cs : List Char} {ms : List (Option String × Json)}
    (h : Spelt cs (.value (.object ms))) : ∀ e ∈ ms, ∃ text, Spelt text (.value e.2) := by
  have hmembers : ∀ {cs : List Char} {part : Part}, Spelt cs part → ∀ ms, part = .members ms →
      ∀ e ∈ ms, ∃ text, Spelt text (.value e.2) := by
    intro cs part h
    induction h with
    | member _ _ _ _ _ h =>
      rintro ms ⟨rfl⟩ e he
      rw [List.mem_singleton.mp he]
      exact ⟨_, h⟩
    | members _ _ _ _ _ h _ _ ih =>
      rintro ms ⟨rfl⟩ e he
      rcases List.mem_cons.mp he with rfl | he
      · exact ⟨_, h⟩
      · exact ih _ rfl e he
    | _ => exact fun _ hpart => nomatch hpart
  cases h with
  | noMembers => exact fun _ he => nomatch he
  | object h => exact hmembers h ms rfl

/-- A text that is one value, with white space around it. -/
inductive IsText (s : String) (json : Json) : Prop where
  | around {before cs after : List Char} (hs : s.toList = before ++ cs ++ after)
    (hbefore : Spaces before) (hafter : Spaces after) (h : Spelt cs (.value json))

theorem value_skip (depth : Nat) (cs : List Char) : value depth (skip cs) = value depth cs := by
  cases depth <;> simp [value, skip_skip]

theorem members_skip (depth : Nat) (cs : List Char) : members depth (skip cs) = members depth cs := by
  cases depth <;> simp [members, skip_skip]

theorem items_skip (depth : Nat) (cs : List Char) : items depth (skip cs) = items depth cs := by
  cases depth <;> simp [items, value_skip]

theorem IsNumber.head {cs : List Char} (h : IsNumber cs) :
    ∃ c ds, cs = c :: ds ∧ (c = '-' ∨ isDigit c = true) := by
  obtain @⟨sign, whole, fraction, exponent, hsign, hwhole, hfraction, hexponent⟩ := h
  rcases hsign with rfl | rfl
  · obtain ⟨d, ds, rfl⟩ := List.exists_cons_of_ne_nil hwhole.digits.some
    exact ⟨d, _, rfl, .inr (hwhole.digits.all d List.mem_cons_self)⟩
  · exact ⟨'-', _, rfl, .inl rfl⟩

/-- How the pieces of a text are read. -/
def Reads (cs : List Char) : Part → Prop
  | .value json => ∀ depth rest, cs.length < depth → Stop rest →
    value depth (cs ++ rest) = some (json, rest)
  | .items js => ∀ depth rest, cs.length + 1 < depth →
    items depth (cs ++ ']' :: rest) = some (js, rest)
  | .members ms => ∀ depth rest, cs.length + 1 < depth →
    members depth (cs ++ '\x7d' :: rest) = some (ms, rest)

theorem isSpace_eq_true {c : Char} (h : isSpace c = true) : c = ' ' ∨ c = '\n' ∨ c = '\t' ∨ c = '\r' := by
  simpa [isSpace, or_assoc] using h

/-- What begins a number begins no other value, and is no white space. -/
theorem ne_of_number_head {c : Char} (h : c = '-' ∨ isDigit c = true) : isSpace c = false ∧
    c ≠ 'n' ∧ c ≠ 't' ∧ c ≠ 'f' ∧ c ≠ '"' ∧ c ≠ '[' ∧ c ≠ '\x7b' ∧ c ≠ ']' := by
  rcases h with rfl | h
  · decide
  · refine ⟨Bool.eq_false_iff.mpr fun hspace => ?_, ?_, ?_, ?_, ?_, ?_, ?_, ?_⟩
    · rcases isSpace_eq_true hspace with rfl | rfl | rfl | rfl <;> exact absurd h (by decide)
    all_goals
      rintro rfl
      exact absurd h (by decide)

theorem value_number {spelling : List Char} (h : IsNumber spelling) (depth : Nat)
    {rest : List Char} (hrest : Stop rest) :
    value (depth + 1) (spelling ++ rest) = some (.number spelling, rest) := by
  have hread := numberText_append h hrest
  obtain ⟨c, ds, rfl, hc⟩ := h.head
  obtain ⟨hspace, hn, ht, hf, hquote, hbracket, hbrace, -⟩ := ne_of_number_head hc
  rw [List.cons_append] at hread ⊢
  simp [value, skip_cons hspace, hn, ht, hf, hquote, hbracket, hbrace, hread]

theorem value_string {cs : List Char} {ls : List Letter} (h : Lettered cs ls) (depth : Nat)
    (rest : List Char) :
    value (depth + 1) ('"' :: (cs ++ '"' :: rest)) = some (.string (denoted? ls), rest) := by
  have hspace : isSpace '"' = false := by decide
  simp [value, skip_cons hspace, letters_append h, denoted?]

theorem value_array {cs : List Char} (hne : ∀ more, skip cs ≠ ']' :: more) (depth : Nat) :
    value (depth + 1) ('[' :: cs) = (items depth cs).map fun p => (.array p.1, p.2) := by
  have hspace : isSpace '[' = false := by decide
  rw [← items_skip, value, skip_cons hspace]
  simp only
  cases items depth (skip cs) <;> rfl

theorem value_object {cs : List Char} (hne : ∀ more, skip cs ≠ '\x7d' :: more) (depth : Nat) :
    value (depth + 1) ('\x7b' :: cs) = (members depth cs).map fun p => (.object p.1, p.2) := by
  have hspace : isSpace '\x7b' = false := by decide
  rw [← members_skip, value, skip_cons hspace]
  simp only
  cases members depth (skip cs) <;> rfl

theorem value_noItems {w : List Char} (hw : Spaces w) (depth : Nat) (rest : List Char) :
    value (depth + 1) ('[' :: (w ++ ']' :: rest)) = some (.array [], rest) := by
  have hspace : isSpace '[' = false := by decide
  have hclose : isSpace ']' = false := by decide
  simp [value, skip_cons hspace, skip_spaces hw, skip_cons hclose]

theorem value_noMembers {w : List Char} (hw : Spaces w) (depth : Nat) (rest : List Char) :
    value (depth + 1) ('\x7b' :: (w ++ '\x7d' :: rest)) = some (.object [], rest) := by
  have hspace : isSpace '\x7b' = false := by decide
  have hclose : isSpace '\x7d' = false := by decide
  simp [value, skip_cons hspace, skip_spaces hw, skip_cons hclose]

theorem value_spaces {w : List Char} (hw : Spaces w) (depth : Nat) (cs : List Char) :
    value depth (w ++ cs) = value depth cs := by
  rw [← value_skip, skip_spaces hw, value_skip]

/-- After a value stands white space, or one of the characters that end a value. -/
theorem stop_spaces {w : List Char} (hw : Spaces w) {c : Char} (hc : c = ',' ∨ c = ']' ∨ c = '\x7d')
    (rest : List Char) : Stop (w ++ c :: rest) := by
  intro d hd
  have hmem : isSpace d = true ∨ d = c := by
    cases w with
    | nil => exact .inr (Option.some.inj hd).symm
    | cons e w => exact .inl (hw d (Option.some.inj hd ▸ List.mem_cons_self))
  rcases hmem with hspace | rfl
  · rcases isSpace_eq_true hspace with rfl | rfl | rfl | rfl <;> decide
  · rcases hc with rfl | rfl | rfl <;> decide

theorem items_last {cs after more : List Char} {json : Json} {depth : Nat}
    (hvalue : value depth cs = some (json, after ++ ']' :: more)) (hafter : Spaces after) :
    items (depth + 1) cs = some ([json], more) := by
  have hclose : isSpace ']' = false := by decide
  simp [items, hvalue, skip_spaces hafter, skip_cons hclose]

theorem items_cons {cs after more : List Char} {json : Json} {depth : Nat}
    (hvalue : value depth cs = some (json, after ++ ',' :: more)) (hafter : Spaces after) :
    items (depth + 1) cs = (items depth more).map fun p => (json :: p.1, p.2) := by
  have hcomma : isSpace ',' = false := by decide
  cases hmore : items depth more <;>
    simp [items, hvalue, skip_spaces hafter, skip_cons hcomma, hmore]

section

variable {start name between cs after more : List Char} {ls : List Letter} {json : Json} {depth : Nat}

theorem members_last (hstart : Spaces start) (hname : Lettered name ls) (hbetween : Spaces between)
    (hvalue : value depth cs = some (json, after ++ '\x7d' :: more)) (hafter : Spaces after) :
    members (depth + 1) (start ++ '"' :: (name ++ '"' :: (between ++ ':' :: cs))) =
      some ([(denoted? ls, json)], more) := by
  have hquote : isSpace '"' = false := by decide
  have hcolon : isSpace ':' = false := by decide
  have hclose : isSpace '\x7d' = false := by decide
  simp [members, skip_spaces hstart, skip_cons hquote, letters_append hname, skip_spaces hbetween,
    skip_cons hcolon, hvalue, skip_spaces hafter, skip_cons hclose, denoted?]

theorem members_cons (hstart : Spaces start) (hname : Lettered name ls) (hbetween : Spaces between)
    (hvalue : value depth cs = some (json, after ++ ',' :: more)) (hafter : Spaces after) :
    members (depth + 1) (start ++ '"' :: (name ++ '"' :: (between ++ ':' :: cs))) =
      (members depth more).map fun p => ((denoted? ls, json) :: p.1, p.2) := by
  have hquote : isSpace '"' = false := by decide
  have hcolon : isSpace ':' = false := by decide
  have hcomma : isSpace ',' = false := by decide
  cases hmore : members depth more <;>
    simp [members, skip_spaces hstart, skip_cons hquote, letters_append hname, skip_spaces hbetween,
      skip_cons hcolon, hvalue, skip_spaces hafter, skip_cons hcomma, hmore, denoted?]

end

theorem Spelt.value_head {cs : List Char} {json : Json} (h : Spelt cs (.value json)) :
    ∃ c ds, cs = c :: ds ∧ isSpace c = false ∧ c ≠ ']' := by
  cases h with
  | number h =>
    obtain ⟨c, ds, rfl, hc⟩ := h.head
    obtain ⟨hspace, -, -, -, -, -, -, hclose⟩ := ne_of_number_head hc
    exact ⟨c, ds, rfl, hspace, hclose⟩
  | _ => exact ⟨_, _, rfl, by decide, by decide⟩

/-- Items do not begin as the end of an array does. -/
theorem Spelt.items_open {cs : List Char} {js : List Json} (h : Spelt cs (.items js))
    (rest more : List Char) : skip (cs ++ rest) ≠ ']' :: more := by
  have hopen : ∀ {before cs : List Char} {json : Json}, Spaces before → Spelt cs (.value json) →
      ∀ rest, skip (before ++ (cs ++ rest)) ≠ ']' :: more := by
    intro before cs json hbefore hvalue rest hskip
    obtain ⟨c, ds, rfl, hspace, hc⟩ := hvalue.value_head
    rw [skip_spaces hbefore, List.cons_append, skip_cons hspace] at hskip
    exact hc (List.cons.inj hskip).1
  cases h with
  | item hbefore _ hvalue =>
    simpa using hopen hbefore hvalue _
  | items hbefore _ hvalue _ =>
    simpa using hopen hbefore hvalue _

theorem Spelt.members_open {cs : List Char} {ms : List (Option String × Json)}
    (h : Spelt cs (.members ms)) (rest more : List Char) : skip (cs ++ rest) ≠ '\x7d' :: more := by
  have hquote : isSpace '"' = false := by decide
  intro hskip
  cases h with
  | member hstart =>
    rw [List.append_assoc, skip_spaces hstart, List.cons_append, skip_cons hquote] at hskip
    exact absurd (List.cons.inj hskip).1 (by decide)
  | members hstart =>
    rw [List.append_assoc, skip_spaces hstart, List.cons_append, skip_cons hquote] at hskip
    exact absurd (List.cons.inj hskip).1 (by decide)

/-- What the grammar spells is read, as far as it goes, by a reader with depth enough. -/
theorem Spelt.reads {cs : List Char} {part : Part} (h : Spelt cs part) : Reads cs part := by
  have hdeep : ∀ {n depth : Nat}, n < depth → ∃ d, depth = d + 1 ∧ n ≤ d := by
    intro n depth hn
    exact ⟨depth - 1, by omega, by omega⟩
  induction h with
  | null =>
    intro depth rest hdepth _
    obtain ⟨d, rfl, -⟩ := hdeep hdepth
    rfl
  | yes =>
    intro depth rest hdepth _
    obtain ⟨d, rfl, -⟩ := hdeep hdepth
    rfl
  | no =>
    intro depth rest hdepth _
    obtain ⟨d, rfl, -⟩ := hdeep hdepth
    rfl
  | number h =>
    intro depth rest hdepth hrest
    obtain ⟨d, rfl, -⟩ := hdeep hdepth
    exact value_number h d hrest
  | string h =>
    intro depth rest hdepth _
    obtain ⟨d, rfl, -⟩ := hdeep hdepth
    simpa using value_string h d rest
  | noItems hw =>
    intro depth rest hdepth _
    obtain ⟨d, rfl, -⟩ := hdeep hdepth
    simpa using value_noItems hw d rest
  | array h ih =>
    intro depth rest hdepth _
    obtain ⟨d, rfl, hd⟩ := hdeep hdepth
    simp only [List.length_cons, List.length_append, List.length_nil] at hd
    rw [List.cons_append, List.append_assoc, List.singleton_append,
      value_array (h.items_open _), ih d rest (by omega), Option.map_some]
  | noMembers hw =>
    intro depth rest hdepth _
    obtain ⟨d, rfl, -⟩ := hdeep hdepth
    simpa using value_noMembers hw d rest
  | object h ih =>
    intro depth rest hdepth _
    obtain ⟨d, rfl, hd⟩ := hdeep hdepth
    simp only [List.length_cons, List.length_append, List.length_nil] at hd
    rw [List.cons_append, List.append_assoc, List.singleton_append,
      value_object (h.members_open _), ih d rest (by omega), Option.map_some]
  | item hbefore hafter h ih =>
    intro depth rest hdepth
    obtain ⟨d, rfl, hd⟩ := hdeep hdepth
    simp only [List.length_append] at hd
    have hvalue := ih d _ (by omega) (stop_spaces hafter (.inr (.inl rfl)) rest)
    rw [← value_spaces hbefore] at hvalue
    simpa using items_last hvalue hafter
  | @items before cs after more json js hbefore hafter h rest ih ihrest =>
    intro depth rest hdepth
    obtain ⟨d, rfl, hd⟩ := hdeep hdepth
    simp only [List.length_append, List.length_cons] at hd
    have hvalue := ih d _ (by omega) (stop_spaces hafter (.inl rfl) (more ++ ']' :: rest))
    rw [← value_spaces hbefore] at hvalue
    have hcons := items_cons hvalue hafter
    rw [ihrest d rest (by omega), Option.map_some] at hcons
    simpa using hcons
  | member hstart hname hbetween hbefore hafter h ih =>
    intro depth rest hdepth
    obtain ⟨d, rfl, hd⟩ := hdeep hdepth
    simp only [List.length_append, List.length_cons] at hd
    have hvalue := ih d _ (by omega) (stop_spaces hafter (.inr (.inr rfl)) rest)
    rw [← value_spaces hbefore] at hvalue
    simpa using members_last hstart hname hbetween hvalue hafter
  | @members start name between before cs after more ls json ms hstart hname hbetween hbefore hafter
      h rest ih ihrest =>
    intro depth rest hdepth
    obtain ⟨d, rfl, hd⟩ := hdeep hdepth
    simp only [List.length_append, List.length_cons] at hd
    have hvalue := ih d _ (by omega) (stop_spaces hafter (.inl rfl) (more ++ '\x7d' :: rest))
    rw [← value_spaces hbefore] at hvalue
    have hcons := members_cons hstart hname hbetween hvalue hafter
    rw [ihrest d rest (by omega), Option.map_some] at hcons
    simpa using hcons

/-- What a reader of some depth takes is spelt as the grammar has it. -/
structure Sound (depth : Nat) : Prop where
  value : ∀ {cs rest : List Char} {json : Json}, value depth cs = some (json, rest) →
    ∃ w text, cs = w ++ text ++ rest ∧ Spaces w ∧ Spelt text (.value json)
  items : ∀ {cs rest : List Char} {js : List Json}, items depth cs = some (js, rest) →
    ∃ text, cs = text ++ ']' :: rest ∧ Spelt text (.items js)
  members : ∀ {cs rest : List Char} {ms : List (Option String × Json)},
    members depth cs = some (ms, rest) →
    ∃ text, cs = text ++ '\x7d' :: rest ∧ Spelt text (.members ms)

theorem Sound.value_succ {depth : Nat} (hsound : Sound depth) {cs rest : List Char} {json : Json}
    (h : Json.value (depth + 1) cs = some (json, rest)) :
    ∃ text, skip cs = text ++ rest ∧ Spelt text (.value json) := by
  rw [Json.value] at h
  split at h
  · next heq =>
    cases h
    exact ⟨_, heq, .null⟩
  · next heq =>
    cases h
    exact ⟨_, heq, .yes⟩
  · next heq =>
    cases h
    exact ⟨_, heq, .no⟩
  · next heq =>
    obtain ⟨⟨ls, more⟩, hletters, hpure⟩ := Option.bind_eq_some_iff.mp h
    cases hpure
    obtain ⟨body, rfl, hbody⟩ := of_letters hletters
    exact ⟨'"' :: (body ++ ['"']), by simp [heq], .string hbody⟩
  · next more heq =>
    obtain ⟨w, hmore, hw⟩ := skip_cut more
    split at h
    · next after hclose =>
      cases h
      rw [hclose] at hmore
      exact ⟨'[' :: (w ++ [']']), by simp [heq, hmore], .noItems hw⟩
    · obtain ⟨⟨js, after⟩, hitems, hpure⟩ := Option.bind_eq_some_iff.mp h
      cases hpure
      rw [items_skip] at hitems
      obtain ⟨text, rfl, htext⟩ := hsound.items hitems
      exact ⟨'[' :: (text ++ [']']), by simp [heq], .array htext⟩
  · next more heq =>
    obtain ⟨w, hmore, hw⟩ := skip_cut more
    split at h
    · next after hclose =>
      cases h
      rw [hclose] at hmore
      exact ⟨'\x7b' :: (w ++ ['\x7d']), by simp [heq, hmore], .noMembers hw⟩
    · obtain ⟨⟨ms, after⟩, hmembers, hpure⟩ := Option.bind_eq_some_iff.mp h
      cases hpure
      rw [members_skip] at hmembers
      obtain ⟨text, rfl, htext⟩ := hsound.members hmembers
      exact ⟨'\x7b' :: (text ++ ['\x7d']), by simp [heq], .object htext⟩
  · obtain ⟨⟨spelling, more⟩, hnumber, hpure⟩ := Option.bind_eq_some_iff.mp h
    cases hpure
    obtain ⟨hcs, hspelling⟩ := of_numberText hnumber
    exact ⟨spelling, hcs, .number hspelling⟩

theorem Sound.items_succ {depth : Nat} (hsound : Sound depth) {cs rest : List Char}
    {js : List Json} (h : Json.items (depth + 1) cs = some (js, rest)) :
    ∃ text, cs = text ++ ']' :: rest ∧ Spelt text (.items js) := by
  rw [Json.items] at h
  obtain ⟨⟨json, more⟩, hvalue, hends⟩ := Option.bind_eq_some_iff.mp h
  obtain ⟨before, text, rfl, hbefore, htext⟩ := hsound.value hvalue
  obtain ⟨after, hmore, hafter⟩ := skip_cut more
  simp only at hends
  split at hends
  · next cs heq =>
    obtain ⟨⟨js', rest'⟩, hitems, hpure⟩ := Option.bind_eq_some_iff.mp hends
    cases hpure
    obtain ⟨text', rfl, htext'⟩ := hsound.items hitems
    refine ⟨before ++ text ++ after ++ ',' :: text', ?_, .items hbefore hafter htext htext'⟩
    rw [hmore, heq]
    simp
  · next cs heq =>
    cases hends
    refine ⟨before ++ text ++ after, ?_, .item hbefore hafter htext⟩
    rw [hmore, heq]
    simp
  · cases hends

theorem Sound.members_succ {depth : Nat} (hsound : Sound depth) {cs rest : List Char}
    {ms : List (Option String × Json)} (h : Json.members (depth + 1) cs = some (ms, rest)) :
    ∃ text, cs = text ++ '\x7d' :: rest ∧ Spelt text (.members ms) := by
  obtain ⟨start, hcs, hstart⟩ := skip_cut cs
  rw [Json.members] at h
  split at h
  · next opened hquote =>
    obtain ⟨⟨ls, named⟩, hletters, hnames⟩ := Option.bind_eq_some_iff.mp h
    obtain ⟨name, rfl, hname⟩ := of_letters hletters
    obtain ⟨between, hnamed, hbetween⟩ := skip_cut named
    simp only at hnames
    split at hnames
    · next valued hcolon =>
      obtain ⟨⟨json, more⟩, hvalue, hends⟩ := Option.bind_eq_some_iff.mp hnames
      obtain ⟨before, text, rfl, hbefore, htext⟩ := hsound.value hvalue
      obtain ⟨after, hmore, hafter⟩ := skip_cut more
      simp only at hends
      split at hends
      · next cs' heq =>
        obtain ⟨⟨ms', rest'⟩, hmembers, hpure⟩ := Option.bind_eq_some_iff.mp hends
        cases hpure
        obtain ⟨text', rfl, htext'⟩ := hsound.members hmembers
        refine ⟨_, ?_, .members hstart hname hbetween hbefore hafter htext htext'⟩
        rw [hcs, hquote, hnamed, hcolon, hmore, heq]
        simp
      · next cs' heq =>
        cases hends
        refine ⟨_, ?_, .member hstart hname hbetween hbefore hafter htext⟩
        rw [hcs, hquote, hnamed, hcolon, hmore, heq]
        simp
      · cases hends
    · cases hnames
  · cases h

theorem sound (depth : Nat) : Sound depth := by
  induction depth with
  | zero =>
    constructor
    · intro cs rest json h
      cases h
    · intro cs rest js h
      cases h
    · intro cs rest ms h
      cases h
  | succ depth ih =>
    refine ⟨fun {cs rest json} h => ?_, ih.items_succ, ih.members_succ⟩
    obtain ⟨w, hcs, hw⟩ := skip_cut cs
    obtain ⟨text, hskip, htext⟩ := ih.value_succ h
    exact ⟨w, text, by rw [hcs, hskip, List.append_assoc], hw, htext⟩

/-- A text is read if and only if the grammar has it, as the value that it has it for. -/
theorem ofText?_eq_some_iff {s : String} {json : Json} : ofText? s = some json ↔ IsText s json := by
  constructor
  · intro h
    unfold ofText? at h
    split at h
    · next json' rest hvalue =>
      split at h
      · next hempty =>
        cases h
        obtain ⟨before, text, hs, hbefore, htext⟩ := (sound _).value hvalue
        obtain ⟨after, hrest, hafter⟩ := skip_cut rest
        rw [List.isEmpty_iff.mp hempty, List.append_nil] at hrest
        exact .around (hrest ▸ hs) hbefore hafter htext
      · cases h
    · cases h
  · rintro @⟨before, cs, after, hs, hbefore, hafter, h⟩
    have hlength := congrArg List.length hs
    simp only [List.length_append] at hlength
    have hstop : Stop after := by
      intro c hc
      rcases isSpace_eq_true (hafter c (List.mem_of_mem_head? hc)) with rfl | rfl | rfl | rfl <;>
        decide
    have hread := h.reads (2 * s.toList.length + 2) after (by omega) hstop
    have hskip : skip after = [] := by
      have hend := skip_spaces hafter []
      rwa [List.append_nil] at hend
    rw [← value_spaces hbefore, ← List.append_assoc, ← hs] at hread
    simp [ofText?, hread, hskip]

end Regression.Json
