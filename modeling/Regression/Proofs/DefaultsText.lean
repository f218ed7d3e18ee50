import Regression.Proofs.Encoding
import Regression.Proofs.Grammar
import Regression.Proofs.Job
import Regression.Proofs.Values
import Regression.Session

namespace Regression

namespace ProjectDefaults

open Json (Spelt IsText)

/-- A list of texts as a value. -/
def texts (ss : List String) : Json := .array (ss.map fun s => .string (some s))

/-- What is said of each member. -/
def value (d : ProjectDefaults) : Member → Json
  | .compopts => texts d.compopts
  | .execopts => texts d.execopts
  | .launchCmd => (d.launchCmd.map fun s => Json.string (some s)).getD .null
  | .preexec => texts (d.preexec.map (·.text))
  | .prediff => texts (d.prediff.map (·.text))
  | .numLocales => (d.numLocales.map fun n => Json.number (Nat.toDigits 10 n)).getD .null

/-- Whether there is something to be said of a member. -/
def isSet (d : ProjectDefaults) : Member → Bool
  | .compopts => !d.compopts.isEmpty
  | .execopts => !d.execopts.isEmpty
  | .launchCmd => d.launchCmd.isSome
  | .preexec => !d.preexec.isEmpty
  | .prediff => !d.prediff.isEmpty
  | .numLocales => d.numLocales.isSome

/-- The values that a member can be given. -/
def Member.Takes : Member → Json → Prop
  | .launchCmd, json => json = .null ∨ ∃ s, json = .string (some s)
  | .numLocales, json => json = .null ∨ ∃ n ≤ Text.countLimit, json = .number (Nat.toDigits 10 n)
  | _, json => ∃ ss, json = texts ss

/-- Defaults whose number of locales is one of 32 bits. -/
def Bounded (d : ProjectDefaults) : Prop := ∀ n ∈ d.numLocales, n ≤ Text.countLimit

theorem texts_injective {ss ss' : List String} (h : texts ss = texts ss') : ss = ss' := by
  have hitems := Json.array.inj h
  refine List.map_injective_iff.mpr ?_ hitems
  intro s s' hs
  exact Option.some.inj (Json.string.inj hs)

theorem paths_texts_injective {ps ps' : List Path}
    (h : texts (ps.map (·.text)) = texts (ps'.map (·.text))) : ps = ps' :=
  List.map_injective_iff.mpr (fun _ _ => congrArg Path.mk) (texts_injective h)

/-- Defaults are known by what is said of each member. -/
theorem ext_value {d d' : ProjectDefaults} (h : ∀ m, d.value m = d'.value m) : d = d' := by
  have hlaunch : d.launchCmd = d'.launchCmd := by
    have hvalue := h .launchCmd
    simp only [value] at hvalue
    cases hd : d.launchCmd <;> cases hd' : d'.launchCmd <;> simp_all
  have hlocales : d.numLocales = d'.numLocales := by
    have hvalue := h .numLocales
    simp only [value] at hvalue
    cases hd : d.numLocales <;> cases hd' : d'.numLocales <;>
      simp only [hd, hd', Option.map_some, Option.map_none, Option.getD_some, Option.getD_none,
        Json.number.injEq, reduceCtorEq] at hvalue ⊢
    have hdigits := congrArg (Nat.ofDigitChars 10 · 0) hvalue
    simpa using hdigits
  obtain ⟨compopts, execopts, launchCmd, preexec, prediff, numLocales⟩ := d
  cases hlaunch
  cases hlocales
  cases texts_injective (h .compopts)
  cases texts_injective (h .execopts)
  cases paths_texts_injective (h .preexec)
  cases paths_texts_injective (h .prediff)
  rfl

theorem value_of_not_isSet {d : ProjectDefaults} {m : Member} (h : d.isSet m = false) :
    d.value m = value {} m := by
  cases m <;> simp_all [isSet, value]

theorem takes_value {d : ProjectDefaults} (hd : d.Bounded) (m : Member) : m.Takes (d.value m) := by
  cases m with
  | launchCmd =>
    cases hlaunch : d.launchCmd with
    | none => exact .inl (by simp [value, hlaunch])
    | some s => exact .inr ⟨s, by simp [value, hlaunch]⟩
  | numLocales =>
    cases hlocales : d.numLocales with
    | none => exact .inl (by simp [value, hlocales])
    | some n => exact .inr ⟨n, hd n hlocales, by simp [value, hlocales]⟩
  | _ => exact ⟨_, rfl⟩

theorem textsOf_texts (ss : List String) : textsOf (texts ss) = some ss := by
  simp only [texts, textsOf]
  induction ss with
  | nil => rfl
  | cons s ss ih => simp [List.mapM_cons, textOf, ih]

theorem of_textsOf {json : Json} {ss : List String} (h : textsOf json = some ss) :
    json = texts ss := by
  cases json with
  | array items =>
    refine congrArg Json.array ?_
    simp only [textsOf] at h
    induction items generalizing ss with
    | nil =>
      cases h
      rfl
    | cons item items ih =>
      simp only [List.mapM_cons, Option.bind_eq_bind, Option.bind_eq_some_iff, Option.pure_def,
        Option.some.injEq] at h
      obtain ⟨s, hs, ss, hss, rfl⟩ := h
      have hitem : item = .string (some s) := by
        cases item <;> simp_all [textOf]
      rw [ih hss, hitem, List.map_cons]
  | _ => cases h

theorem optionalCount_digits {n : Nat} (hn : n ≤ Text.countLimit) :
    optionalCount (.number (Nat.toDigits 10 n)) = some (some n) := by
  have hdigits : (Nat.toDigits 10 n).all Json.isDigit = true :=
    List.all_eq_true.mpr fun c hc => Nat.isDigit_of_mem_toDigits (by decide) (by decide) hc
  simp [optionalCount, hdigits, Text.readCount_digits hn]

theorem of_optionalCount {spelling : List Char} {count : Option Nat} (hspelt : Json.IsNumber spelling)
    (h : optionalCount (.number spelling) = some count) :
    ∃ n ≤ Text.countLimit, spelling = Nat.toDigits 10 n := by
  simp only [optionalCount] at h
  split at h
  · next hall =>
    obtain ⟨n, hread, -⟩ := Option.map_eq_some_iff.mp h
    have hdigits := List.all_eq_true.mp hall
    obtain ⟨rfl, hn⟩ := Text.of_readCount hdigits hread
    exact ⟨_, hn, (hspelt.whole hdigits).toDigits.symm⟩
  · cases h

/-- A value that a member can be given is what is said of it then. -/
theorem assign_takes {m : Member} {json : Json} (h : m.Takes json) (d : ProjectDefaults) :
    ∃ d', assign d json m = some d' ∧ d'.value m = json ∧ (d.Bounded → d'.Bounded) := by
  cases m with
  | launchCmd => rcases h with rfl | ⟨s, rfl⟩ <;> exact ⟨_, rfl, rfl, id⟩
  | numLocales =>
    rcases h with rfl | ⟨n, hn, rfl⟩
    · exact ⟨_, rfl, rfl, fun _ _ hnone => nomatch hnone⟩
    · exact ⟨{ d with numLocales := some n }, by simp [assign, optionalCount_digits hn], rfl,
        fun _ _ hsome => Option.some.inj hsome ▸ hn⟩
  | _ =>
    obtain ⟨ss, rfl⟩ := h
    simp only [assign, textsOf_texts, Option.map_some]
    exact ⟨_, rfl, by simp [value, Function.comp_def], id⟩

theorem value_assign_of_ne {m m' : Member} {json : Json} {d d' : ProjectDefaults}
    (h : assign d json m = some d') (hne : m' ≠ m) : d'.value m' = d.value m' := by
  cases m <;> obtain ⟨_, -, rfl⟩ := Option.map_eq_some_iff.mp h <;> cases m' <;>
    first | rfl | exact absurd rfl hne

theorem takes_of_assign {m : Member} {json : Json} {d d' : ProjectDefaults}
    (hspelt : ∃ text, Spelt text (.value json)) (h : assign d json m = some d') : m.Takes json := by
  cases m with
  | launchCmd =>
    obtain ⟨launch, hlaunch, -⟩ := Option.map_eq_some_iff.mp h
    unfold optionalText at hlaunch
    split at hlaunch
    · exact .inl rfl
    · exact .inr ⟨_, rfl⟩
    · cases hlaunch
  | numLocales =>
    obtain ⟨count, hcount, -⟩ := Option.map_eq_some_iff.mp h
    cases json with
    | null => exact .inl rfl
    | number spelling =>
      obtain ⟨text, htext⟩ := hspelt
      cases htext with
      | number hnumber =>
        obtain ⟨n, hn, rfl⟩ := of_optionalCount hnumber hcount
        exact .inr ⟨n, hn, rfl⟩
    | _ => cases hcount
  | _ =>
    obtain ⟨ss, hss, -⟩ := Option.map_eq_some_iff.mp h
    exact ⟨ss, of_textsOf hss⟩

theorem Member.mem_all (m : Member) : m ∈ all := by
  cases m <;> decide

@[simp] theorem Member.ofName?_name (m : Member) : ofName? m.name = some m := by
  cases m <;> decide

theorem Member.ofName?_eq_some_iff {s : String} {m : Member} : ofName? s = some m ↔ s = m.name := by
  constructor
  · intro h
    have hname := List.find?_some h
    exact (beq_iff_eq.mp hname).symm
  · rintro rfl
    exact ofName?_name m

@[simp] theorem Member.name_inj {m m' : Member} : m.name = m'.name ↔ m = m' := by
  rw [← ofName?_eq_some_iff, ofName?_name, Option.some.injEq]

/-- The members of an object that are known, in their order. -/
def known (ms : List (Option String × Json)) : List Member :=
  ms.filterMap fun e => e.1.bind Member.ofName?

/-- Objects that say what defaults are: every member has a name, none that is known comes twice, and
those that are known have values that they can be given. -/
structure Fits (ms : List (Option String × Json)) : Prop where
  named : ∀ e ∈ ms, e.1 ≠ none
  once : (known ms).Nodup
  typed : ∀ (m : Member) (json : Json), (some m.name, json) ∈ ms → m.Takes json

/-- What the members of an object make of defaults: those that are there say what is said of them, and
of the others is said what was said before. -/
structure Says (ms : List (Option String × Json)) (d d' : ProjectDefaults) : Prop where
  given : ∀ (m : Member) (json : Json), (some m.name, json) ∈ ms → d'.value m = json
  absent : ∀ m : Member, (∀ json, (some m.name, json) ∉ ms) → d'.value m = d.value m

section

variable {ms rest : List (Option String × Json)} {name : String} {json : Json} {m : Member}
  {seen : List Member} {d d' : ProjectDefaults}

theorem mem_known : m ∈ known ms ↔ ∃ json, (some m.name, json) ∈ ms := by
  simp only [known, List.mem_filterMap, Option.bind_eq_some_iff, Member.ofName?_eq_some_iff]
  constructor
  · rintro ⟨⟨_, json⟩, he, s, rfl, rfl⟩
    exact ⟨json, he⟩
  · rintro ⟨json, he⟩
    exact ⟨_, he, m.name, rfl, rfl⟩

theorem known_cons_none (h : Member.ofName? name = none) :
    known ((some name, json) :: rest) = known rest := by
  simp [known, h]

theorem known_cons (m : Member) : known ((some m.name, json) :: rest) = m :: known rest := by
  simp [known]

theorem ofMembers_cons_none (h : Member.ofName? name = none) :
    ofMembers seen d ((some name, json) :: rest) = ofMembers seen d rest := by
  simp [ofMembers, h]

theorem ofMembers_cons (hseen : m ∉ seen) :
    ofMembers seen d ((some m.name, json) :: rest) =
      (assign d json m).bind fun d => ofMembers (m :: seen) d rest := by
  simp [ofMembers, hseen]

/-- A member that is not known is none of those that are. -/
theorem mem_cons_none (h : Member.ofName? name = none) {json' : Json} :
    (some m.name, json') ∈ (some name, json) :: rest ↔ (some m.name, json') ∈ rest := by
  refine ⟨fun he => ?_, List.mem_cons_of_mem _⟩
  rcases List.mem_cons.mp he with heq | he
  · cases heq
    rw [Member.ofName?_eq_some_iff.mpr rfl] at h
    cases h
  · exact he

theorem mem_cons {m' : Member} {json' : Json} :
    (some m'.name, json') ∈ (some m.name, json) :: rest ↔
      m' = m ∧ json' = json ∨ (some m'.name, json') ∈ rest := by
  simp

theorem fits_cons_none (h : Member.ofName? name = none) :
    Fits ((some name, json) :: rest) ↔ Fits rest := by
  constructor
  · rintro ⟨hnamed, honce, htyped⟩
    rw [known_cons_none h] at honce
    exact ⟨(List.forall_mem_cons.mp hnamed).2, honce,
      fun m json hm => htyped m json (List.mem_cons_of_mem _ hm)⟩
  · rintro ⟨hnamed, honce, htyped⟩
    rw [← known_cons_none h] at honce
    exact ⟨List.forall_mem_cons.mpr ⟨Option.some_ne_none _, hnamed⟩, honce,
      fun m json hm => htyped m json ((mem_cons_none h).mp hm)⟩

theorem fits_cons :
    Fits ((some m.name, json) :: rest) ↔ m.Takes json ∧ m ∉ known rest ∧ Fits rest := by
  constructor
  · rintro ⟨hnamed, honce, htyped⟩
    rw [known_cons, List.nodup_cons] at honce
    exact ⟨htyped m json List.mem_cons_self, honce.1, (List.forall_mem_cons.mp hnamed).2, honce.2,
      fun m json hm => htyped m json (List.mem_cons_of_mem _ hm)⟩
  · rintro ⟨hjson, hnew, hnamed, honce, htyped⟩
    refine ⟨List.forall_mem_cons.mpr ⟨Option.some_ne_none _, hnamed⟩, ?_, fun m' json' hm => ?_⟩
    · rw [known_cons]
      exact List.nodup_cons.mpr ⟨hnew, honce⟩
    · rcases mem_cons.mp hm with ⟨rfl, rfl⟩ | hm
      · exact hjson
      · exact htyped m' json' hm

theorem Says.cons_none (h : Member.ofName? name = none) (hsaid : Says rest d d') :
    Says ((some name, json) :: rest) d d' where
  given m json hm := hsaid.given m json ((mem_cons_none h).mp hm)
  absent m hm := hsaid.absent m fun json hjson => hm json ((mem_cons_none h).mpr hjson)

/-- What is said of a member is said for good, as it does not come again. -/
theorem Says.cons {d₁ : ProjectDefaults} (hassign : assign d json m = some d₁)
    (hvalue : d₁.value m = json) (hnew : m ∉ known rest) (hsaid : Says rest d₁ d') :
    Says ((some m.name, json) :: rest) d d' where
  given m' json' hm := by
    rcases mem_cons.mp hm with ⟨rfl, rfl⟩ | hm
    · exact (hsaid.absent m' fun json hm => hnew (mem_known.mpr ⟨json, hm⟩)).trans hvalue
    · exact hsaid.given m' json' hm
  absent m' hm := by
    have hne : m' ≠ m := by
      rintro rfl
      exact hm json List.mem_cons_self
    have hrest : ∀ json, (some m'.name, json) ∉ rest := fun json h => hm json (List.mem_cons_of_mem _ h)
    rw [hsaid.absent m' hrest, value_assign_of_ne hassign hne]

/-- An object that fits is read, where none of its members was seen before it. -/
theorem ofMembers_of_fits (h : Fits ms) (hseen : ∀ m ∈ known ms, m ∉ seen) (hd : d.Bounded) :
    ∃ d', ofMembers seen d ms = some d' ∧ d'.Bounded ∧ Says ms d d' := by
  induction ms generalizing seen d with
  | nil => exact ⟨d, rfl, hd, nofun, fun _ _ => rfl⟩
  | cons e rest ih =>
    obtain ⟨name, json⟩ := e
    obtain ⟨name, rfl⟩ := Option.ne_none_iff_exists'.mp (h.named _ List.mem_cons_self)
    cases hname : Member.ofName? name with
    | none =>
      rw [known_cons_none hname] at hseen
      obtain ⟨d', hd', hbounded, hsaid⟩ := ih ((fits_cons_none hname).mp h) hseen hd
      exact ⟨d', (ofMembers_cons_none hname).trans hd', hbounded, hsaid.cons_none hname⟩
    | some m =>
      obtain rfl := Member.ofName?_eq_some_iff.mp hname
      obtain ⟨hjson, hnew, hrest⟩ := fits_cons.mp h
      rw [known_cons] at hseen
      obtain ⟨hm, hseen⟩ := List.forall_mem_cons.mp hseen
      obtain ⟨d₁, hassign, hvalue, hkept⟩ := assign_takes hjson d
      have hseen₁ : ∀ m' ∈ known rest, m' ∉ m :: seen := by
        intro m' hm'
        refine List.not_mem_cons_of_ne_of_not_mem ?_ (hseen m' hm')
        rintro rfl
        exact hnew hm'
      obtain ⟨d', hd', hbounded, hsaid⟩ := ih hrest hseen₁ (hkept hd)
      refine ⟨d', ?_, hbounded, .cons hassign hvalue hnew hsaid⟩
      rw [ofMembers_cons hm, hassign, Option.bind_some, hd']

theorem fits_of_ofMembers (hspelt : ∀ e ∈ ms, ∃ text, Spelt text (.value e.2))
    (h : ofMembers seen d ms = some d') : Fits ms ∧ ∀ m ∈ known ms, m ∉ seen := by
  induction ms generalizing seen d with
  | nil => exact ⟨⟨nofun, List.nodup_nil, nofun⟩, nofun⟩
  | cons e rest ih =>
    obtain ⟨hjson, hrest⟩ := List.forall_mem_cons.mp hspelt
    obtain ⟨name, json⟩ := e
    cases name with
    | none => cases h
    | some name =>
      cases hname : Member.ofName? name with
      | none =>
        rw [ofMembers_cons_none hname] at h
        rw [fits_cons_none hname, known_cons_none hname]
        exact ih hrest h
      | some m =>
        obtain rfl := Member.ofName?_eq_some_iff.mp hname
        have hm : m ∉ seen := by
          intro hm
          simp [ofMembers, hname, hm] at h
        rw [ofMembers_cons hm] at h
        obtain ⟨d₁, hassign, h⟩ := Option.bind_eq_some_iff.mp h
        obtain ⟨hfits, hseen⟩ := ih hrest h
        have hnew : m ∉ known rest := fun hm' => hseen m hm' List.mem_cons_self
        rw [fits_cons, known_cons]
        exact ⟨⟨takes_of_assign hjson hassign, hnew, hfits⟩, List.forall_mem_cons.mpr
          ⟨hm, fun m' hm' hmem => hseen m' hm' (List.mem_cons_of_mem _ hmem)⟩⟩

end

/-- The object that is written for defaults: what is set, and nothing else, in the order of the
members. -/
def members (d : ProjectDefaults) : List (Option String × Json) :=
  (Member.all.filter d.isSet).map fun m => (some m.name, d.value m)

theorem spelt_writtenTexts (ss : List String) : Spelt (writtenTexts ss) (.value (texts ss)) :=
  Json.spelt_array fun s _ => Json.spelt_quote s

theorem written_of_not_isSet {d : ProjectDefaults} {m : Member} (h : d.isSet m = false) :
    d.written m = none := by
  cases m <;> simp_all [isSet, written]

/-- How a member that is set is written. -/
def spelling (d : ProjectDefaults) (m : Member) : List Char := (d.written m).getD []

theorem written_of_isSet {d : ProjectDefaults} {m : Member} (h : d.isSet m = true) :
    d.written m = some (d.spelling m) ∧ Spelt (d.spelling m) (.value (d.value m)) := by
  unfold spelling
  cases m with
  | launchCmd =>
    obtain ⟨s, hs⟩ := Option.isSome_iff_exists.mp h
    simpa [written, value, hs] using Json.spelt_quote s
  | numLocales =>
    obtain ⟨n, hn⟩ := Option.isSome_iff_exists.mp h
    have hnumber := Spelt.number (Json.isNumber_toDigits n)
    simpa [written, value, hn] using hnumber
  | _ =>
    rw [written, if_neg (by simpa [isSet] using h), Option.getD_some]
    exact ⟨rfl, spelt_writtenTexts _⟩

theorem filterMap_written (d : ProjectDefaults) (ms : List Member) :
    (ms.filterMap fun m => (d.written m).map fun value => Json.quote m.name ++ ':' :: value) =
      (ms.filter d.isSet).map fun m => Json.quote m.name ++ ':' :: d.spelling m := by
  induction ms with
  | nil => rfl
  | cons m ms ih =>
    cases hset : d.isSet m with
    | true => simp [hset, (written_of_isSet hset).1, ih]
    | false => simp [hset, written_of_not_isSet hset, ih]

theorem isText_toText (d : ProjectDefaults) : IsText d.toText (.object d.members) := by
  have hspelt : ∀ m ∈ Member.all.filter d.isSet, Spelt (d.spelling m) (.value (d.value m)) :=
    fun m hm => (written_of_isSet (List.mem_filter.mp hm).2).2
  refine .around ?_ Json.spaces_nil Json.spaces_nil (Json.spelt_object hspelt)
  simp [toText, filterMap_written]

theorem known_members (d : ProjectDefaults) : known d.members = Member.all.filter d.isSet := by
  simp [known, members, List.filterMap_map]

theorem mem_members {d : ProjectDefaults} {m : Member} {json : Json} :
    (some m.name, json) ∈ d.members ↔ d.isSet m = true ∧ d.value m = json := by
  simp only [members, List.mem_map, List.mem_filter, Member.mem_all, true_and, Prod.mk.injEq,
    Option.some.injEq, Member.name_inj]
  constructor
  · rintro ⟨m, hset, rfl, hvalue⟩
    exact ⟨hset, hvalue⟩
  · rintro ⟨hset, hvalue⟩
    exact ⟨m, hset, rfl, hvalue⟩

theorem fits_members {d : ProjectDefaults} (hd : d.Bounded) : Fits d.members where
  named e he := by
    obtain ⟨m, -, rfl⟩ := List.mem_map.mp he
    exact Option.some_ne_none _
  once := by
    rw [known_members]
    exact List.Pairwise.filter _ (by decide)
  typed m json hm := by
    obtain ⟨-, rfl⟩ := mem_members.mp hm
    exact takes_value hd m

theorem bounded_default : Bounded {} := nofun

theorem ofText?_of_isText {s : String} {json : Json} (h : IsText s json) : ofText? s = ofJson? json := by
  rw [ofText?, Json.ofText?_eq_some_iff.mpr h, Option.bind_some]

/-- An object that fits is read as the defaults that say what its members say. -/
theorem ofText?_of_fits {s : String} {ms : List (Option String × Json)} (hs : IsText s (.object ms))
    (h : Fits ms) : ∃ d, ofText? s = some d ∧ d.Bounded ∧ Says ms {} d := by
  rw [ofText?_of_isText hs]
  exact ofMembers_of_fits h nofun bounded_default

theorem fits_of_ofText? {s : String} {ms : List (Option String × Json)} {d : ProjectDefaults}
    (hs : IsText s (.object ms)) (h : ofText? s = some d) : Fits ms := by
  rw [ofText?_of_isText hs] at h
  obtain @⟨before, cs, after, -, -, -, hspelt⟩ := hs
  exact (fits_of_ofMembers hspelt.of_object h).1

theorem ofText?_toText {d : ProjectDefaults} (hd : d.Bounded) : ofText? d.toText = some d := by
  obtain ⟨d', hd', -, hsaid⟩ := ofText?_of_fits d.isText_toText (fits_members hd)
  rw [hd']
  refine congrArg some (ext_value fun m => ?_)
  cases hset : d.isSet m with
  | true => exact hsaid.given m _ (mem_members.mpr ⟨hset, rfl⟩)
  | false =>
    rw [value_of_not_isSet hset]
    refine hsaid.absent m fun json hm => ?_
    exact Bool.false_ne_true (hset.symm.trans (mem_members.mp hm).1)

theorem load_on {m : Machine} {file : Path} {s : String}
    (hread : m.files.readText m.directory file = .ok s) :
    (load file).on m = match ofText? s with
      | some d => (.ok d, m)
      | none => (.error (.configuration (.defaults file)), m) := by
  have hjob : (readText file).on m = (.ok s, m) := by
    unfold Regression.readText
    rw [Job.on_bind_ok (Job.on_get m), hread]
    rfl
  rw [load, Job.on_bind_ok hjob]
  cases ofText? s <;> rfl

/-- The text that is written for defaults says what is set of them, and is read as them. -/
structure Returns (d : ProjectDefaults) : Prop where
  spelt : IsText d.toText (.object d.members)
  read : ofText? d.toText = some d

/-- What comes of a defaults file with some text. -/
structure Loads (m : Machine) (file : Path) (s : String) : Prop where
  taken {ms : List (Option String × Json)} (hs : IsText s (.object ms)) (h : Fits ms) :
    ∃ d, (load file).on m = (.ok d, m) ∧ Says ms {} d ∧ ofText? d.toText = some d
  mistyped {ms : List (Option String × Json)} (hs : IsText s (.object ms)) {member : Member}
    {json : Json} (hmember : (some member.name, json) ∈ ms) (h : ¬member.Takes json) :
    (load file).on m = (.error (.configuration (.defaults file)), m)
  malformed (h : ∀ json, ¬IsText s json) :
    (load file).on m = (.error (.configuration (.defaults file)), m)

/-- Defaults come back from the text that is written for them. Any object that fits is read as what
its members say; a text that gives a member what it cannot be given, or that is not of the grammar, is
refused. -/
theorem toText_load {d : ProjectDefaults} (hd : d.Bounded) {m : Machine} {file : Path} {s : String}
    (hread : m.files.readText m.directory file = .ok s) : d.Returns ∧ Loads m file s := by
  have hload := load_on hread
  have hrefused (h : ∀ d, ofText? s ≠ some d) :
      (load file).on m = (.error (.configuration (.defaults file)), m) := by
    rw [hload, Option.eq_none_iff_forall_ne_some.mpr h]
  refine ⟨⟨d.isText_toText, ofText?_toText hd⟩, ?_, ?_, ?_⟩
  · intro ms hs h
    obtain ⟨d, hd, hbounded, hsaid⟩ := ofText?_of_fits hs h
    refine ⟨d, ?_, hsaid, ofText?_toText hbounded⟩
    rw [hload, hd]
  · intro ms hs member json hmember h
    exact hrefused fun d hd => h ((fits_of_ofText? hs hd).typed member json hmember)
  · intro h
    refine hrefused fun d hd => ?_
    obtain ⟨json, hjson, -⟩ := Option.bind_eq_some_iff.mp hd
    exact h json (Json.ofText?_eq_some_iff.mp hjson)

namespace Reordered

def defaults : ProjectDefaults :=
  { launchCmd := some "a\"\\\x01", numLocales := some Text.countLimit }

/-- A text with its members in another order, and with one that is not known. -/
def text : String := "\x7b \"num_locales\": 4, \"more\": [null], \"compopts\": [\"-g\"] \x7d"

def machine : Machine :=
  { files := { entries := [([], .directory .newDirectory),
                 (["d"], .file 0 .newFile (Text.encode text))]
               serial := 1 }
    tools := fun _ _ _ _ => .error .notFound, clock := ⟨2024, 5, 1, 12, 0, 0, 0⟩, process := 1
    scratchRoot := ⟨"/tmp"⟩ }

theorem toText_load_reordered : defaults.Bounded ∧
    machine.files.readText machine.directory ⟨"/d"⟩ = .ok text ∧
    defaults.Returns ∧ Loads machine ⟨"/d"⟩ text := by
  have hbounded : defaults.Bounded := fun n hn => (Option.some.inj hn).symm.le
  have hbytes : machine.files.read machine.directory ⟨"/d"⟩ = .ok (Text.encode text) := rfl
  have hread : machine.files.readText machine.directory ⟨"/d"⟩ = .ok text := by
    simp [FileTree.readText, hbytes, Text.decode?_encode, bind, Except.bind, pure, Except.pure]
  exact ⟨hbounded, hread, toText_load hbounded hread⟩

end Reordered

end ProjectDefaults

end Regression
