import Regression.CommandLine.Parse
import Regression.Proofs.Lines

namespace Regression

namespace CommandLine

namespace Opt

theorem mem_all (o : Opt) : o ∈ all := by
  cases o <;> decide

/-- What keeps a name apart from the dashes before it and the value after it. -/
structure IsName (name : String) : Prop where
  long : 2 ≤ name.toList.length
  undashed : name.toList.head? ≠ some '-'
  whole : '=' ∉ name.toList

theorem names_checked : ∀ o ∈ all, ∀ name ∈ o.names, ofName? name = some o ∧
    2 ≤ name.toList.length ∧ name.toList.head? ≠ some '-' ∧ '=' ∉ name.toList := by
  decide +kernel

variable {o : Opt} {name : String}

theorem isName (h : name ∈ o.names) : IsName name := by
  obtain ⟨-, hlong, hundashed, hwhole⟩ := names_checked o o.mem_all name h
  exact ⟨hlong, hundashed, hwhole⟩

/-- No two options share a name. -/
theorem ofName?_eq_some_iff : ofName? name = some o ↔ name ∈ o.names := by
  constructor
  · intro h
    simpa using List.find?_some h
  · exact fun h => (names_checked o o.mem_all name h).1

end Opt

/-- What stands after the name of an option. -/
def inlined : Option String → String
  | none => ""
  | some value => "=" ++ value

/-- An option as it may be written, after one dash or two. -/
def spelt (single : Bool) (name : String) (value : Option String) : String :=
  (if single then "-" else "--") ++ name ++ inlined value

/-- The option that stands after the dashes, with the value that stands with it. -/
def named? (cs : List Char) : Option (Opt × Option String) :=
  match Text.cutAt '=' cs with
  | some (name, value) =>
    (Opt.ofName? (String.ofList name)).map fun o => (o, some (String.ofList value))
  | none => (Opt.ofName? (String.ofList cs)).map fun o => (o, none)

def option? (arg : String) : Option (Opt × Option String) :=
  (afterDashes arg.toList).bind named?

variable {o : Opt} {name arg : String} {value : Option String}

theorem named?_spelt (h : name ∈ o.names) (value : Option String) :
    named? (name.toList ++ (inlined value).toList) = some (o, value) := by
  have hwhole := (Opt.isName h).whole
  have hname := Opt.ofName?_eq_some_iff.mpr h
  cases value with
  | none => simp [named?, inlined, Text.cutAt_none hwhole, hname]
  | some v =>
    have hcut := Text.cutAt_append hwhole v.toList
    simp [named?, inlined, hcut, hname]

theorem of_named? {cs : List Char} (h : named? cs = some (o, value)) :
    ∃ name ∈ o.names, cs = name.toList ++ (inlined value).toList := by
  unfold named? at h
  split at h
  · next front rest hcut =>
    obtain ⟨o', ho, heq⟩ := Option.map_eq_some_iff.mp h
    cases heq
    refine ⟨_, Opt.ofName?_eq_some_iff.mp ho, ?_⟩
    simp [inlined, Text.of_cutAt hcut]
  · obtain ⟨o', ho, heq⟩ := Option.map_eq_some_iff.mp h
    cases heq
    exact ⟨_, Opt.ofName?_eq_some_iff.mp ho, by simp [inlined]⟩

/-- One dash or two stand before a name that has no dash of its own. -/
theorem afterDashes_spelt (h : Opt.IsName name) (single : Bool) (value : Option String) :
    afterDashes (spelt single name value).toList =
      some (name.toList ++ (inlined value).toList) := by
  obtain ⟨hlong, hundashed, -⟩ := h
  cases single with
  | false => simp [spelt, afterDashes]
  | true =>
    match hname : name.toList with
    | [] => simp [hname] at hlong
    | [c] => simp [hname] at hlong
    | c :: d :: cs =>
      have hc : c ≠ '-' := by simpa [hname] using hundashed
      simp [spelt, afterDashes, hname]

theorem option?_spelt (h : name ∈ o.names) (single : Bool) (value : Option String) :
    option? (spelt single name value) = some (o, value) := by
  rw [option?, afterDashes_spelt (Opt.isName h), Option.bind_some, named?_spelt h]

theorem of_afterDashes {cs rest : List Char} (h : afterDashes cs = some rest) :
    cs = '-' :: '-' :: rest ∨ cs = '-' :: rest := by
  unfold afterDashes at h
  split at h
  · cases h
    exact .inl rfl
  · cases h
    exact .inr rfl
  · cases h

theorem option?_eq_some_iff : option? arg = some (o, value) ↔
    ∃ single, ∃ name ∈ o.names, arg = spelt single name value := by
  constructor
  · intro h
    obtain ⟨rest, hdashes, hnamed⟩ := Option.bind_eq_some_iff.mp h
    obtain ⟨name, hname, rfl⟩ := of_named? hnamed
    rcases of_afterDashes hdashes with hd | hd
    · exact ⟨false, name, hname, String.toList_injective (by simp [hd, spelt])⟩
    · exact ⟨true, name, hname, String.toList_injective (by simp [hd, spelt])⟩
  · rintro ⟨single, name, hname, rfl⟩
    exact option?_spelt hname single value

theorem ne_ending_of_option? {found : Opt × Option String} (h : option? arg = some found) :
    arg ≠ "--" := by
  rintro rfl
  have hnone : option? "--" = none := by decide +kernel
  cases hnone.symm.trans h

/-- What an argument is. -/
inductive Part where
  | option (o : Opt) (value : Option String)
  /-- The value of the option before it. -/
  | value
  | ending
  | target
  deriving DecidableEq, Repr

/-- What each argument after the program's name is. -/
def parts : List String → List Part
  | [] => []
  | arg :: args =>
    if arg = "--" then .ending :: args.map fun _ => .target
    else match option? arg with
      | none => .target :: parts args
      | some (o, value) =>
        .option o value ::
          if o.takesValue && value.isNone then
            match args with
            | [] => []
            | _ :: args => .value :: parts args
          else parts args

example : parts ["-compopts", "--", "-fast", "-futures", "-execopts=-q", "--", "-futures"] =
    [.option .compopts none, .value, .target, .option .futures none, .option .execopts (some "-q"),
      .ending, .target] := by decide +kernel

theorem parts_cons (arg : String) (args : List String) :
    parts (arg :: args) =
      if arg = "--" then .ending :: args.map fun _ => .target
      else match option? arg with
        | none => .target :: parts args
        | some (o, value) =>
          .option o value ::
            if o.takesValue && value.isNone then
              match args with
              | [] => []
              | _ :: args => .value :: parts args
            else parts args :=
  parts.eq_def (arg :: args)

theorem parts_ending (args : List String) :
    parts ("--" :: args) = .ending :: args.map fun _ => .target := by
  simp [parts_cons]

theorem parts_target (hne : arg ≠ "--") (h : option? arg = none) (args : List String) :
    parts (arg :: args) = .target :: parts args := by
  simp [parts_cons, hne, h]

/-- An option that needs no value of its own after it. -/
theorem parts_option (h : option? arg = some (o, value))
    (hvalue : (o.takesValue && value.isNone) = false) (args : List String) :
    parts (arg :: args) = .option o value :: parts args := by
  simp only [parts_cons, if_neg (ne_ending_of_option? h), h, hvalue, Bool.false_eq_true, ↓reduceIte]

theorem parts_alone (h : option? arg = some (o, value))
    (hvalue : (o.takesValue && value.isNone) = true) : parts [arg] = [.option o value] := by
  simp only [parts_cons, if_neg (ne_ending_of_option? h), h, hvalue, ↓reduceIte]

theorem parts_valued (h : option? arg = some (o, value))
    (hvalue : (o.takesValue && value.isNone) = true) (v : String) (args : List String) :
    parts (arg :: v :: args) = .option o value :: .value :: parts args := by
  rw [parts_cons, if_neg (ne_ending_of_option? h), h]
  simp only [hvalue, ↓reduceIte]

/-- Arguments are gone through one by one, but an option and the value after it together. -/
@[elab_as_elim]
theorem arguments_induction {P : List String → Prop} (nil : P [])
    (ending : ∀ args, P ("--" :: args))
    (target : ∀ arg args, arg ≠ "--" → option? arg = none → P args → P (arg :: args))
    (option : ∀ arg args o value, option? arg = some (o, value) →
      (o.takesValue && value.isNone) = false → P args → P (arg :: args))
    (alone : ∀ arg o value, option? arg = some (o, value) →
      (o.takesValue && value.isNone) = true → P [arg])
    (valued : ∀ arg v args o value, option? arg = some (o, value) →
      (o.takesValue && value.isNone) = true → P args → P (arg :: v :: args)) (args : List String) :
    P args := by
  induction args using parts.induct with
  | case1 => exact nil
  | case2 args => exact ending args
  | case3 arg args hne hnone ih => exact target arg args hne hnone ih
  | case4 arg args hne o value hsome ihafter ih =>
    cases hvalue : o.takesValue && value.isNone with
    | false => exact option arg args o value hsome hvalue ih
    | true =>
      cases args with
      | nil => exact alone arg o value hsome hvalue
      | cons v args => exact valued arg v args o value hsome hvalue ihafter

end CommandLine

end Regression
