import Mathlib.Data.List.Forall2
import Regression.Proofs.Arguments

namespace Regression.CommandLine

variable {o : Opt} {name arg arg' : String} {value : Option String} {args args' : List String}

/-- How an argument is written anew. -/
def Part.rewrite (p : Part) (arg : String) : String :=
  match p with
  | .option _ _ => doubled arg
  | .value | .ending | .target => arg

@[simp] theorem Part.rewrite_option (o : Opt) (value : Option String) (arg : String) :
    (option o value).rewrite arg = doubled arg := rfl

@[simp] theorem Part.rewrite_value (arg : String) : Part.value.rewrite arg = arg := rfl

@[simp] theorem Part.rewrite_ending (arg : String) : Part.ending.rewrite arg = arg := rfl

@[simp] theorem Part.rewrite_target (arg : String) : Part.target.rewrite arg = arg := rfl

theorem doubled_spelt (h : Opt.IsName name) (single : Bool) (value : Option String) :
    doubled (spelt single name value) = spelt false name value := by
  cases single with
  | false => simp [doubled, spelt, Text.startsWith]
  | true =>
    have hhead : Text.startsWith (spelt true name value) "--" = false := by
      cases hname : name.toList with
      | nil =>
        have hlong := h.long
        rw [hname] at hlong
        cases hlong
      | cons c cs =>
        have hc : c ≠ '-' := by simpa [hname] using h.undashed
        simp [Text.startsWith, spelt, hname, List.isPrefixOf, Ne.symm hc]
    rw [doubled, hhead]
    exact String.toList_injective (by simp [spelt])

/-- What one argument comes to where an option may stand. -/
theorem normalizeOne_argument (arg : String) :
    normalizeOne .argument arg =
      if arg = "--" then (arg, .target)
      else match option? arg with
        | some (o, value) =>
          (doubled arg, if o.takesValue && value.isNone then .value else .argument)
        | none => (arg, .argument) := by
  simp only [normalizeOne, spelling?, option?]
  split
  · rfl
  · cases afterDashes arg.toList with
    | none => rfl
    | some cs =>
      simp only [Option.map_some, Option.bind_some, named?]
      cases Text.cutAt '=' cs with
      | none =>
        simp only
        cases Opt.ofName? (String.ofList cs) <;> rfl
      | some cut =>
        simp only
        cases Opt.ofName? (String.ofList cut.1) <;> rfl

theorem normalizeFrom_target (args : List String) : normalizeFrom .target args = args := by
  induction args with
  | nil => rfl
  | cons arg args ih => simp only [normalizeFrom, normalizeOne, ih]

theorem normalizeFrom_ending (args : List String) :
    normalizeFrom .argument ("--" :: args) = "--" :: args := by
  simp only [normalizeFrom, normalizeOne_argument, ↓reduceIte, normalizeFrom_target]

theorem normalizeFrom_word (hne : arg ≠ "--") (h : option? arg = none) (args : List String) :
    normalizeFrom .argument (arg :: args) = arg :: normalizeFrom .argument args := by
  simp only [normalizeFrom, normalizeOne_argument, if_neg hne, h]

theorem normalizeFrom_option (h : option? arg = some (o, value))
    (hvalue : (o.takesValue && value.isNone) = false) (args : List String) :
    normalizeFrom .argument (arg :: args) = doubled arg :: normalizeFrom .argument args := by
  simp only [normalizeFrom, normalizeOne_argument, if_neg (ne_ending_of_option? h), h, hvalue,
    Bool.false_eq_true, ↓reduceIte]

theorem normalizeFrom_alone (h : option? arg = some (o, value)) :
    normalizeFrom .argument [arg] = [doubled arg] := by
  simp only [normalizeFrom, normalizeOne_argument, if_neg (ne_ending_of_option? h), h]

theorem normalizeFrom_valued (h : option? arg = some (o, value))
    (hvalue : (o.takesValue && value.isNone) = true) (v : String) (args : List String) :
    normalizeFrom .argument (arg :: v :: args) =
      doubled arg :: v :: normalizeFrom .argument args := by
  rw [normalizeFrom, normalizeOne_argument, if_neg (ne_ending_of_option? h), h]
  simp only [hvalue, ↓reduceIte, normalizeFrom, normalizeOne]

/-- Each argument is written anew by what it is. -/
theorem normalizeFrom_eq (args : List String) :
    normalizeFrom .argument args = List.zipWith Part.rewrite (parts args) args := by
  induction args using arguments_induction with
  | nil => rfl
  | ending args =>
    have hkept : List.zipWith Part.rewrite (args.map fun _ => .target) args = args := by
      induction args with
      | nil => rfl
      | cons arg args ih => rw [List.map_cons, List.zipWith_cons_cons, ih, Part.rewrite_target]
    rw [normalizeFrom_ending, parts_ending, List.zipWith_cons_cons, hkept, Part.rewrite_ending]
  | target arg args hne hnone ih =>
    rw [normalizeFrom_word hne hnone, parts_target hne hnone, List.zipWith_cons_cons, ih,
      Part.rewrite_target]
  | option arg args o value hsome hvalue ih =>
    rw [normalizeFrom_option hsome hvalue, parts_option hsome hvalue, List.zipWith_cons_cons, ih,
      Part.rewrite_option]
  | alone arg o value hsome hvalue =>
    rw [normalizeFrom_alone hsome, parts_alone hsome hvalue]
    rfl
  | valued arg v args o value hsome hvalue ih =>
    rw [normalizeFrom_valued hsome hvalue, parts_valued hsome hvalue, List.zipWith_cons_cons,
      List.zipWith_cons_cons, ih, Part.rewrite_option, Part.rewrite_value]

/-- How else an argument may be written: a known option after one dash or two. -/
inductive Alike : Part → String → String → Prop where
  | same (part : Part) (arg : String) : Alike part arg arg
  | dashes {o : Opt} {name : String} (h : name ∈ o.names) (value : Option String)
    (single single' : Bool) :
    Alike (.option o value) (spelt single name value) (spelt single' name value)

theorem Alike.doubled (h : Alike (.option o value) arg arg') :
    CommandLine.doubled arg' = CommandLine.doubled arg := by
  cases h with
  | same => rfl
  | dashes hname value single single' =>
    rw [doubled_spelt (Opt.isName hname), doubled_spelt (Opt.isName hname)]

/-- The dashes of an option make it no other option. -/
theorem Alike.option? (h : Alike (.option o value) arg arg')
    (hoption : CommandLine.option? arg = some (o, value)) :
    CommandLine.option? arg' = some (o, value) := by
  cases h with
  | same => exact hoption
  | dashes hname value single single' => exact option?_spelt hname single' value

/-- A known option is doubled to one of its names after two dashes. -/
theorem doubled_option (h : option? arg = some (o, value)) :
    ∃ single, ∃ name ∈ o.names, arg = spelt single name value ∧
      doubled arg = spelt false name value := by
  obtain ⟨single, name, hname, rfl⟩ := option?_eq_some_iff.mp h
  exact ⟨single, name, hname, rfl, doubled_spelt (Opt.isName hname) single value⟩

end Regression.CommandLine
