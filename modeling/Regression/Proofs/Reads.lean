import Regression.Proofs.Normalizing
import Regression.Proofs.Reading

namespace Regression.CommandLine

/-- What the normalizer takes an argument for. -/
def Expecting.part (expecting : Expecting) (arg : String) : Part :=
  match expecting with
  | .value => .value
  | .target => .target
  | .argument =>
    if arg = "--" then .ending
    else match option? arg with
      | some (o, v) => .option o v
      | none => .target

/-- What the normalizer takes each argument for, by what the arguments before make of it. -/
def Expecting.parts (expecting : Expecting) : List String → List Part
  | [] => []
  | arg :: args => expecting.part arg :: (normalizeOne expecting arg).2.parts args

theorem Expecting.parts_target (args : List String) :
    Expecting.target.parts args = args.map fun _ => Part.target := by
  induction args with
  | nil => rfl
  | cons arg args ih => exact congrArg (Part.target :: ·) ih

theorem Expecting.parts_argument (args : List String) :
    Expecting.argument.parts args = CommandLine.parts args := by
  induction args using arguments_induction with
  | nil => rfl
  | ending args =>
    simp only [parts, part, normalizeOne_argument, ↓reduceIte, parts_target, parts_ending]
  | target arg args hne hnone ih =>
    simp only [parts, part, normalizeOne_argument, if_neg hne, hnone, ih,
      CommandLine.parts_target hne hnone]
  | option arg args o value hsome hvalue ih =>
    simp only [parts, part, normalizeOne_argument, if_neg (ne_ending_of_option? hsome), hsome, hvalue,
      Bool.false_eq_true, ↓reduceIte, ih, parts_option hsome hvalue]
  | alone arg o value hsome hvalue =>
    simp only [parts, part, if_neg (ne_ending_of_option? hsome), hsome, parts_alone hsome hvalue]
  | valued arg v args o value hsome hvalue ih =>
    rw [parts_valued hsome hvalue, ← ih, parts, parts, normalizeOne_argument,
      if_neg (ne_ending_of_option? hsome), hsome]
    simp only [part, if_neg (ne_ending_of_option? hsome), hsome, hvalue, ↓reduceIte, normalizeOne]

namespace Reading

/-- The option that takes an argument for its value. -/
def taker (r : Reading) (arg : String) : Option Opt :=
  r.waiting.filter fun o => o.takesHyphens || shape arg = .word

end Reading

/-- How the reader gets from one state to another by arguments, and what it takes each for. -/
inductive Reads : Reading → List String → List Part → Reading → Prop where
  | nil (r : Reading) : Reads r [] [] r
  | value {r r' : Reading} {o : Opt} {arg : String} {args : List String} {ps : List Part}
    (htaker : r.taker arg = some o)
    (hrest : Reads { r with pending := .option o (some arg) } args ps r') :
    Reads r (arg :: args) (.value :: ps) r'
  | ending {r r' : Reading} {arg : String} {args : List String} (hfree : r.taker arg = none)
    (hshape : shape arg = .ending) (hread : readTargets r args = .ok r') :
    Reads r (arg :: args) (.ending :: args.map fun _ => .target) r'
  | option {r r₁ r' : Reading} {o : Opt} {arg : String} {value : Option String} {rest : List Char}
    {args : List String} {ps : List Part} (hfree : r.taker arg = none)
    (hshape : shape arg = .long rest) (hnamed : named? rest = some (o, value))
    (hlong : r.long rest = .ok r₁) (hrest : Reads r₁ args ps r') :
    Reads r (arg :: args) (.option o value :: ps) r'
  | target {r r₁ r' : Reading} {arg : String} {args : List String} {ps : List Part}
    (hfree : r.taker arg = none) (hshape : shape arg = .word) (htarget : r.target arg = .ok r₁)
    (hrest : Reads r₁ args ps r') :
    Reads r (arg :: args) (.target :: ps) r'

variable {r r' r₁ : Reading} {o o' : Opt} {arg : String} {value : Option String} {rest : List Char}
  {args : List String} {ps : List Part}

theorem readArguments_cons (r : Reading) (arg : String) (args : List String) :
    readArguments r (arg :: args) =
      match r.taker arg with
      | some o => readArguments { r with pending := .option o (some arg) } args
      | none => readArguments.fresh r arg args := by
  rw [readArguments, Reading.taker]
  cases hwaiting : r.waiting with
  | none => rfl
  | some o =>
    simp only [Option.filter_some]
    split <;> rfl

/-- A single dash begins nothing that goes on. -/
theorem Reading.short_refuses (h : shape arg = .short rest) :
    ∃ refusal, r.short rest = .error refusal := by
  have hsome := ne_nil_of_shape h
  unfold short
  split
  · exact switch_asks rfl
  · exact switch_asks rfl
  · exact ⟨_, rfl⟩
  · exact absurd rfl hsome

theorem readArguments_nil (r : Reading) : readArguments r [] = .ok r := by
  rw [readArguments]

theorem readArguments_fresh (h : r.taker arg = none) (args : List String) :
    readArguments r (arg :: args) =
      match shape arg with
      | .ending => readTargets r args
      | .long rest => (r.long rest).bind fun r => readArguments r args
      | .short rest => (r.short rest).bind fun r => readArguments r args
      | .word => (r.target arg).bind fun r => readArguments r args := by
  rw [readArguments_cons, h]
  cases hshape : shape arg <;> simp only [readArguments.fresh, hshape]

theorem readArguments_value (h : r.taker arg = some o) (args : List String) :
    readArguments r (arg :: args) =
      readArguments { r with pending := .option o (some arg) } args := by
  rw [readArguments_cons, h]

theorem Reads.readArguments (h : Reads r args ps r') : CommandLine.readArguments r args = .ok r' := by
  induction h with
  | nil r => exact readArguments_nil r
  | value htaker hrest ih => rw [readArguments_value htaker, ih]
  | ending hfree hshape hread => rw [readArguments_fresh hfree, hshape, hread]
  | option hfree hshape hnamed hlong hrest ih =>
    simpa only [readArguments_fresh hfree, hshape, hlong, Except.bind] using ih
  | target hfree hshape htarget hrest ih =>
    simpa only [readArguments_fresh hfree, hshape, htarget, Except.bind] using ih

theorem reads_of_readArguments (h : readArguments r args = .ok r') : ∃ ps, Reads r args ps r' := by
  induction args generalizing r with
  | nil =>
    rw [readArguments_nil] at h
    cases h
    exact ⟨[], .nil _⟩
  | cons arg args ih =>
    cases htaker : r.taker arg with
    | some o =>
      rw [readArguments_value htaker] at h
      obtain ⟨ps, hrest⟩ := ih h
      exact ⟨_, .value htaker hrest⟩
    | none =>
      rw [readArguments_fresh htaker] at h
      cases hshape : shape arg with
      | ending =>
        rw [hshape] at h
        exact ⟨_, .ending htaker hshape h⟩
      | long rest =>
        rw [hshape] at h
        obtain ⟨r₁, hlong, h⟩ := bind_eq_ok h
        obtain ⟨ps, hrest⟩ := ih h
        cases hnamed : named? rest with
        | none =>
          obtain ⟨refusal, hunknown⟩ := Reading.long_unknown (r := r) hnamed
          cases hlong.symm.trans hunknown
        | some found => exact ⟨_, .option htaker hshape hnamed hlong hrest⟩
      | short rest =>
        rw [hshape] at h
        obtain ⟨refusal, hrefused⟩ := Reading.short_refuses (r := r) hshape
        simp only [hrefused] at h
        cases h
      | word =>
        rw [hshape] at h
        obtain ⟨r₁, htarget, h⟩ := bind_eq_ok h
        obtain ⟨ps, hrest⟩ := ih h
        exact ⟨_, .target htaker hshape htarget hrest⟩

theorem Reading.taker_eq_none (h : r.waiting = none) (arg : String) : r.taker arg = none := by
  rw [taker, h]
  rfl

theorem Reading.waiting_of_taker (h : r.taker arg = some o) : r.waiting = some o :=
  (Option.filter_eq_some_iff.mp h).1

/-- Nothing but its value follows an option that waits for one. -/
theorem readTargets_waiting (hwaiting : r.waiting = some o) (h : readTargets r args = .ok r') :
    r' = r := by
  cases args with
  | nil =>
    cases h
    rfl
  | cons arg args =>
    rw [readTargets, Reading.target_waiting hwaiting] at h
    cases h

section Options

variable {name : String} (hname : name ∈ o.names)
include hname

/-- An option is read where one is written, when none waits for its value. -/
theorem Reads.of_option (hwaiting : r.waiting = none)
    (h : Reads r (spelt false name value :: args) ps r') :
    ∃ r₁ ps', Reads r₁ args ps' r' ∧ ps = .option o value :: ps' ∧
      r₁.waiting = if o.takesValue && value.isNone then some o else none := by
  have hshape := shape_spelt (Opt.isName hname) value
  cases h with
  | value htaker hrest => cases (Reading.taker_eq_none hwaiting _).symm.trans htaker
  | ending hfree hending => cases hshape.symm.trans hending
  | target hfree hword => cases hshape.symm.trans hword
  | option hfree hlong hnamed hstep hrest =>
    cases hshape.symm.trans hlong
    have hfound := named?_spelt hname value
    cases hfound.symm.trans hnamed
    exact ⟨_, _, hrest, rfl, Reading.waiting_of_long hnamed hstep⟩

end Options

/-- The value that an option waits for is read, or the command line is refused. -/
theorem Reads.of_value (hwaiting : r.waiting = some o) (haccepted : r'.settlePending = .ok r₁)
    (h : Reads r (arg :: args) ps r') :
    ∃ r₂ ps', Reads r₂ args ps' r' ∧ ps = .value :: ps' ∧ r₂.waiting = none := by
  cases h with
  | value htaker hrest => exact ⟨_, _, hrest, rfl, rfl⟩
  | ending hfree hshape hread =>
    rw [readTargets_waiting hwaiting hread, Reading.settlePending_waiting hwaiting] at haccepted
    cases haccepted
  | option hfree hshape hnamed hlong hrest =>
    obtain ⟨refusal, hrefused⟩ := Reading.long_waiting hwaiting _
    cases hlong.symm.trans hrefused
  | target hfree hshape htarget hrest =>
    cases htarget.symm.trans (Reading.target_waiting hwaiting _)

/-- What is read is what was normalized, where all that is read can be taken in. -/
theorem Reads.parts_eq (h : Reads r (normalizeFrom .argument args) ps r')
    (hwaiting : r.waiting = none) (haccepted : r'.settlePending = .ok r₁) : ps = parts args := by
  -- Where the normalizer looks for an option, no option of the reader waits for its value.
  induction args using arguments_induction generalizing r ps with
  | nil =>
    cases h
    rfl
  | ending args =>
    rw [normalizeFrom_ending] at h
    cases h with
    | value htaker hrest => cases (Reading.taker_eq_none hwaiting _).symm.trans htaker
    | ending hfree hshape hread => exact (parts_ending args).symm
    | option hfree hlong => cases shape_ending.symm.trans hlong
    | target hfree hword => cases shape_ending.symm.trans hword
  | target arg args hne hnone ih =>
    rw [normalizeFrom_word hne hnone] at h
    rw [parts_target hne hnone]
    cases h with
    | value htaker hrest => cases (Reading.taker_eq_none hwaiting _).symm.trans htaker
    | ending hfree hshape hread => exact absurd (eq_of_shape_ending hshape) hne
    | option hfree hshape hnamed hlong hrest =>
      cases (hnamed.symm.trans (option?_of_shape hshape).symm).trans hnone
    | target hfree hshape htarget hrest =>
      rw [ih hrest (Reading.waiting_of_target htarget)]
  | option arg args o value hsome hvalue ih =>
    obtain ⟨single, name, hname, -, hdoubled⟩ := doubled_option hsome
    rw [normalizeFrom_option hsome hvalue, hdoubled] at h
    obtain ⟨r₂, ps', hrest, rfl, hnext⟩ := h.of_option hname hwaiting
    rw [hvalue] at hnext
    rw [parts_option hsome hvalue, ih hrest hnext]
  | alone arg o value hsome hvalue =>
    obtain ⟨single, name, hname, -, hdoubled⟩ := doubled_option hsome
    rw [normalizeFrom_alone hsome, hdoubled] at h
    obtain ⟨r₂, ps', hrest, rfl, hnext⟩ := h.of_option hname hwaiting
    rw [if_pos hvalue] at hnext
    cases hrest
    cases haccepted.symm.trans (Reading.settlePending_waiting hnext)
  | valued arg v args o value hsome hvalue ih =>
    obtain ⟨single, name, hname, -, hdoubled⟩ := doubled_option hsome
    rw [normalizeFrom_valued hsome hvalue, hdoubled] at h
    obtain ⟨r₂, ps', hrest, rfl, hnext⟩ := h.of_option hname hwaiting
    rw [if_pos hvalue] at hnext
    obtain ⟨r₃, ps'', hafter, rfl, hfree⟩ := hrest.of_value hnext haccepted
    rw [parts_valued hsome hvalue, ih hafter hfree]

end Regression.CommandLine
