import Regression.Proofs.Reads
import Regression.Proofs.Values

namespace Regression.CommandLine

variable {r r' r₁ : Reading} {o o' : Opt} {arg : String} {value : Option String} {rest : List Char}
  {args : List String} {ps : List Part}

/-- The values that arguments give to an option, with it or right after it. The option before them, if it
stands without a value, is `waiting`. -/
def valuesGiven (o : Opt) (waiting : Option Opt) : List (Part × String) → List String
  | [] => []
  | (.option o' value, _) :: rest =>
    (if o' = o then value.toList else []) ++
      valuesGiven o (if value.isNone then some o' else none) rest
  | (.value, arg) :: rest => (if waiting = some o then [arg] else []) ++ valuesGiven o none rest
  | (.ending, _) :: rest => valuesGiven o none rest
  | (.target, _) :: rest => valuesGiven o none rest

def targetsGiven (given : List (Part × String)) : List String :=
  given.filterMap fun (part, arg) => if part = .target then some arg else none

/-- The values of an option that are not yet taken in. -/
def Pending.held (o : Opt) : Pending → List String
  | .option o' (some v) => if o' = o then [v] else []
  | .option _ none | .nothing | .targets _ => []

def Pending.heldTargets : Pending → List String
  | .targets values => values
  | .option _ _ | .nothing => []

namespace Reading

/-- The values of an option as they were written, taken in or not. -/
def held (r : Reading) (o : Opt) : List String :=
  (r.choices.given o).filterMap (fun v => o.kind.written v) ++ r.pending.held o

def heldTargets (r : Reading) : List String :=
  r.choices.targets.map Path.text ++ r.pending.heldTargets

/-- From one state to another an option has got some more values, and there are some more targets. -/
structure Grows (o : Opt) (r r' : Reading) (values targets : List String) : Prop where
  values : r'.held o = r.held o ++ values
  targets : r'.heldTargets = r.heldTargets ++ targets

namespace Grows

variable {vs ts vs' ts' : List String}

theorem refl (o : Opt) (r : Reading) : Grows o r r [] [] :=
  ⟨(List.append_nil _).symm, (List.append_nil _).symm⟩

/-- What has just become pending counts as given. -/
theorem pending (o : Opt) (p : Pending) (hvalues : r.pending.held o = [])
    (htargets : r.pending.heldTargets = []) :
    Grows o r { r with pending := p } (p.held o) p.heldTargets where
  values := by rw [held, held, hvalues, List.append_nil]
  targets := by rw [heldTargets, heldTargets, htargets, List.append_nil]

theorem trans (h : Grows o r r₁ vs ts) (h' : Grows o r₁ r' vs' ts') :
    Grows o r r' (vs ++ vs') (ts ++ ts') where
  values := by rw [h'.values, h.values, List.append_assoc]
  targets := by rw [h'.targets, h.targets, List.append_assoc]

/-- What was pending is no more than it was once it is taken in. -/
theorem settled
    (h : Grows o { r with pending := .nothing } r' (r.pending.held o) r.pending.heldTargets) :
    Grows o r r' [] [] := by
  obtain ⟨hvalues, htargets⟩ := h
  constructor
  · rw [hvalues, held, held, Pending.held, List.append_nil, List.append_nil]
  · rw [htargets, heldTargets, heldTargets, Pending.heldTargets, List.append_nil, List.append_nil]

end Grows

theorem value_grows (o : Opt) (h : r.taker arg = some o') :
    Grows o r { r with pending := .option o' (some arg) } (if o' = o then [arg] else []) [] := by
  have hpending := pending_of_waiting (waiting_of_taker h)
  exact .pending o (.option o' (some arg)) (hpending ▸ rfl) (hpending ▸ rfl)

section Lists

variable (hlist : o.repeats)
include hlist

theorem accept_grows {s : String} (hpending : r.pending = .nothing) (h : r.accept o' s = .ok r') :
    Grows o r r' (if o' = o then [s] else []) [] := by
  obtain ⟨-, v, hread, rfl⟩ := accept_eq_ok_iff.mp h
  have hstill : (r.add o' v).pending = .nothing := hpending
  constructor
  · rw [held, held, hstill, hpending, Pending.held, List.append_nil, List.append_nil, choices_add]
    by_cases ho : o' = o
    · subst ho
      rw [Choices.given_take_self _ (asks_of_repeats hlist), Opt.gather, if_pos hlist,
        List.filterMap_append, if_pos rfl]
      exact congrArg _ (List.filterMap_cons_some (written_of_read hlist hread))
    · rw [Choices.given_take_other _ (Ne.symm ho), if_neg ho, List.append_nil]
  · rw [heldTargets, heldTargets, hstill, hpending, choices_add, Choices.targets_take,
      List.append_nil]

theorem settlePending_grows (h : r.settlePending = .ok r') : Grows o r r' [] [] := by
  refine Grows.settled ?_
  rw [settlePending] at h
  cases hpending : r.pending with
  | nothing =>
    rw [hpending] at h
    cases h
    exact Grows.refl o _
  | option o' value =>
    rw [hpending] at h
    cases value with
    | none => cases h
    | some v => exact accept_grows hlist rfl h
  | targets values =>
    rw [hpending] at h
    obtain ⟨-, rfl⟩ := acceptTargets_eq_ok_iff.mp h
    constructor
    · exact (List.append_nil _).symm
    · simp [heldTargets, addTargets, Pending.heldTargets, Function.comp_def]

theorem long_grows (hnamed : named? rest = some (o', value)) (h : r.long rest = .ok r') :
    Grows o r r' (if o' = o then value.toList else []) [] := by
  obtain ⟨r₁, hsettle, hcases⟩ := long_cases hnamed h
  have hsettled := settlePending_grows hlist hsettle
  have hpending := pending_of_settlePending hsettle
  obtain ⟨v, -, rfl, haccept⟩ | ⟨-, rfl, rfl⟩ | ⟨htakes, rfl, haccept⟩ := hcases
  · exact hsettled.trans (accept_grows hlist hpending haccept)
  · rw [Option.toList_none, ite_self]
    exact hsettled.trans (.pending o (.option o' none) (hpending ▸ rfl) (hpending ▸ rfl))
  · have hgrows := accept_grows hlist hpending haccept
    have hother : o' ≠ o := by
      rintro rfl
      cases htakes.symm.trans (takesValue_of_repeats hlist)
    rw [if_neg hother] at hgrows ⊢
    exact hsettled.trans hgrows

theorem target_grows (h : r.target arg = .ok r') : Grows o r r' [] [arg] := by
  obtain ⟨values, hpending, rfl⟩ | ⟨r₁, hsettle, rfl⟩ := target_cases h
  · constructor
    · rw [held, held, hpending, List.append_nil]
      rfl
    · rw [heldTargets, heldTargets, hpending, List.append_assoc]
      rfl
  · have hsettled := settlePending_grows hlist hsettle
    have hpending := pending_of_settlePending hsettle
    exact hsettled.trans (.pending o (.targets [arg]) (hpending ▸ rfl) (hpending ▸ rfl))

theorem readTargets_grows (h : readTargets r args = .ok r') : Grows o r r' [] args := by
  induction args generalizing r with
  | nil =>
    cases h
    exact Grows.refl o _
  | cons arg args ih =>
    obtain ⟨r₁, htarget, h⟩ := bind_eq_ok h
    exact (target_grows hlist htarget).trans (ih h)

end Lists

end Reading

theorem valuesGiven_congr {waiting waiting' : Option Opt} (h : waiting = some o ↔ waiting' = some o)
    (given : List (Part × String)) :
    valuesGiven o waiting given = valuesGiven o waiting' given := by
  match given with
  | [] => rfl
  | (.option o' value, _) :: rest => rfl
  | (.value, arg) :: rest => simp only [valuesGiven, h]
  | (.ending, _) :: rest => rfl
  | (.target, _) :: rest => rfl

theorem valuesGiven_targets (o : Opt) (waiting : Option Opt) (args : List String) :
    valuesGiven o waiting ((args.map fun _ => Part.target).zip args) = [] := by
  induction args generalizing waiting with
  | nil => rfl
  | cons arg args ih => exact ih none

theorem targetsGiven_targets (args : List String) :
    targetsGiven ((args.map fun _ => Part.target).zip args) = args := by
  induction args with
  | nil => rfl
  | cons arg args ih => exact congrArg (arg :: ·) ih

/-- Along a whole command line an option that gathers a list gets what is given to it. -/
theorem Reads.grows (hlist : o.repeats) (h : Reads r args ps r') :
    Reading.Grows o r r' (valuesGiven o r.waiting (ps.zip args)) (targetsGiven (ps.zip args)) := by
  induction h with
  | nil r => exact .refl o r
  | value htaker hrest ih =>
    have hgrows := (Reading.value_grows o htaker).trans ih
    simp only [List.zip_cons_cons, valuesGiven, Reading.waiting_of_taker htaker, Option.some.injEq]
    exact hgrows
  | @ending r r' arg args hfree hshape hread =>
    have hgrows := Reading.readTargets_grows hlist hread
    have htargets := targetsGiven_targets args
    rw [List.zip_cons_cons, valuesGiven, valuesGiven_targets]
    exact ⟨hgrows.values, hgrows.targets.trans (congrArg _ htargets.symm)⟩
  | @option r r₁ r' o' arg value rest args ps hfree hshape hnamed hlong hrest ih =>
    have hgrows := (Reading.long_grows hlist hnamed hlong).trans ih
    have hwaiting : r₁.waiting = some o ↔ (if value.isNone then some o' else none) = some o := by
      rw [Reading.waiting_of_long hnamed hlong]
      by_cases ho : o' = o
      · rw [ho, takesValue_of_repeats hlist, Bool.true_and]
      · simp [ho]
    rw [valuesGiven_congr hwaiting] at hgrows
    exact hgrows
  | target hfree hshape htarget hrest ih =>
    have hgrows := (Reading.target_grows hlist htarget).trans ih
    rw [Reading.waiting_of_target htarget] at hgrows
    exact hgrows

/-- Writing options anew changes no value and no target. -/
theorem given_rewrite (o : Opt) (waiting : Option Opt) (ps : List Part) (args : List String) :
    valuesGiven o waiting (ps.zip (List.zipWith Part.rewrite ps args)) =
      valuesGiven o waiting (ps.zip args) ∧
    targetsGiven (ps.zip (List.zipWith Part.rewrite ps args)) = targetsGiven (ps.zip args) := by
  induction ps generalizing waiting args with
  | nil => exact ⟨rfl, rfl⟩
  | cons p ps ih =>
    cases args with
    | nil => exact ⟨rfl, rfl⟩
    | cons arg args =>
      cases p with
      | option o' value =>
        exact ⟨congrArg ((if o' = o then value.toList else []) ++ ·) (ih _ args).1, (ih none args).2⟩
      | value =>
        exact ⟨congrArg ((if waiting = some o then [arg] else []) ++ ·) (ih none args).1,
          (ih none args).2⟩
      | ending => exact ih none args
      | target => exact ⟨(ih none args).1, congrArg (arg :: ·) (ih none args).2⟩

/-- What the normalizer and the reader make of one command line, whose arguments the normalizer takes
for `parts`. -/
structure Agreed (program : String) (args : List String) (parts : List Part) (settings : Settings)
    (targets : List Path) : Prop where
  /-- The reader takes each argument, as it was normalized, for the same. -/
  reads : ∃ r, readArguments {} (normalize (program :: args)).tail = .ok r ∧
    Reads {} (normalize (program :: args)).tail parts r
  /-- It can be read in no other way. -/
  only : ∀ ps r, Reads {} (normalize (program :: args)).tail ps r → ps = parts
  compopts : settings.compopts = valuesGiven .compopts none (parts.zip args)
  execopts : settings.execopts = valuesGiven .execopts none (parts.zip args)
  preexec : settings.preexec.map Path.text = valuesGiven .syspreexec none (parts.zip args)
  prediff : settings.prediff.map Path.text = valuesGiven .sysprediff none (parts.zip args)
  targets : targets.map Path.text = targetsGiven (parts.zip args)

theorem held_start (hlist : o.repeats) : ({} : Reading).held o = [] := by
  cases o <;> first | rfl | cases hlist

/-- A list that is accepted has what was given to it, and the targets are as they were given. -/
theorem Reads.lists (h : Reads {} (normalizeFrom .argument args) (parts args) r)
    (hsettle : r.settlePending = .ok r') (hlist : o.repeats) :
    (r'.choices.given o).filterMap (fun v => o.kind.written v) =
      valuesGiven o none ((parts args).zip args) ∧
    r'.choices.targets.map Path.text = targetsGiven ((parts args).zip args) := by
  have hgrows := (h.grows hlist).trans (Reading.settlePending_grows hlist hsettle)
  have hpending := Reading.pending_of_settlePending hsettle
  obtain ⟨hvalues, htargets⟩ := given_rewrite o none (parts args) args
  rw [← normalizeFrom_eq] at hvalues htargets
  constructor
  · calc (r'.choices.given o).filterMap (fun v => o.kind.written v)
        = r'.held o := by rw [Reading.held, hpending, Pending.held, List.append_nil]
      _ = valuesGiven o none ((parts args).zip (normalizeFrom .argument args)) := by
          rw [hgrows.values, List.append_nil, held_start hlist, List.nil_append]
          rfl
      _ = valuesGiven o none ((parts args).zip args) := hvalues
  · calc r'.choices.targets.map Path.text
        = r'.heldTargets := by
          rw [Reading.heldTargets, hpending, Pending.heldTargets, List.append_nil]
      _ = targetsGiven ((parts args).zip (normalizeFrom .argument args)) := by
          rw [hgrows.targets, List.append_nil]
          rfl
      _ = targetsGiven ((parts args).zip args) := htargets

/-- Where a command line is accepted, the normalizer and the reader agree on every argument, and lists
come out as they were given. -/
theorem read_agrees {program : String} {args : List String} {settings : Settings} {targets : List Path}
    (h : read program args = .ok (settings, targets)) :
    Agreed program args (Expecting.argument.parts args) settings targets := by
  obtain ⟨r, hread, r', hsettle, hresolved⟩ := parse_eq_ok_iff.mp h
  obtain ⟨ps, hreads⟩ := reads_of_readArguments hread
  have hparts := hreads.parts_eq rfl hsettle
  subst hparts
  cases hresolved
  rw [Expecting.parts_argument]
  constructor
  · exact ⟨r, hread, hreads⟩
  · intro ps r₁ hother
    cases hread.symm.trans hother.readArguments
    exact Reads.parts_eq hother rfl hsettle
  · exact (List.filterMap_some).symm.trans (hreads.lists hsettle (o := .compopts) rfl).1
  · exact (List.filterMap_some).symm.trans (hreads.lists hsettle (o := .execopts) rfl).1
  · exact (congrFun List.filterMap_eq_map _).symm.trans (hreads.lists hsettle (o := .syspreexec) rfl).1
  · exact (congrFun List.filterMap_eq_map _).symm.trans (hreads.lists hsettle (o := .sysprediff) rfl).1
  · exact (hreads.lists hsettle (o := .compopts) rfl).2

/-- The end of the options as a value, and again where it ends them. -/
def dashedLine : List String :=
  ["-compopts", "--", "-futures", "a.chpl", "--", "-x"]

theorem read_agrees_dashedLine :
    read "start_test" dashedLine =
      .ok ({ compopts := ["--"], futuresMode := .included }, [⟨"a.chpl"⟩, ⟨"-x"⟩]) ∧
    Agreed "start_test" dashedLine
      [.option .compopts none, .value, .option .futures none, .target, .ending, .target]
      { compopts := ["--"], futuresMode := .included } [⟨"a.chpl"⟩, ⟨"-x"⟩] := by
  have hcompopts : named? "compopts".toList = some (.compopts, none) := by decide +kernel
  have hfutures : named? "futures".toList = some (.futures, none) := by decide +kernel
  have hnormal : normalizeFrom .argument dashedLine =
      ["--compopts", "--", "--futures", "a.chpl", "--", "-x"] := by decide +kernel
  have hreads : Reads {} ["--compopts", "--", "--futures", "a.chpl", "--", "-x"] _ _ :=
    .option rfl (by decide +kernel) hcompopts (Reading.long_named hcompopts) <|
    .value rfl <|
    .option rfl (by decide +kernel) hfutures (Reading.long_named hfutures) <|
    .target rfl (by decide +kernel) rfl <|
    .ending rfl (by decide +kernel) rfl
  have hread := (congrArg (readArguments {}) hnormal).trans hreads.readArguments
  have haccepted : read "start_test" dashedLine =
      .ok ({ compopts := ["--"], futuresMode := .included }, [⟨"a.chpl"⟩, ⟨"-x"⟩]) :=
    parse_eq_ok_iff.mpr ⟨_, hread, _, rfl, rfl⟩
  exact ⟨haccepted, read_agrees haccepted⟩

end Regression.CommandLine
