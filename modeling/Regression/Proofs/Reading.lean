import Regression.CommandLine.Parse
import Regression.Proofs.Arguments
import Regression.Proofs.Choosing

namespace Regression.CommandLine

variable {r r' : Reading} {o : Opt} {name arg : String} {value : Option String} {rest : List Char}

/-- Both steps of what goes well go well. -/
theorem bind_eq_ok {α β ε : Type} {x : Except ε α} {f : α → Except ε β} {b : β}
    (h : x.bind f = .ok b) : ∃ a, x = .ok a ∧ f a = .ok b := by
  cases x with
  | error e => cases h
  | ok a => exact ⟨a, rfl, h⟩

theorem shape_ending : shape "--" = .ending := by
  decide +kernel

theorem eq_of_shape_ending (h : shape arg = .ending) : arg = "--" := by
  unfold shape at h
  split at h
  · next hletters => exact String.toList_injective (hletters.trans (by decide +kernel))
  · cases h
  · cases h
  · cases h
  · cases h

theorem option?_of_shape (h : shape arg = .long rest) : option? arg = named? rest := by
  unfold shape at h
  split at h
  · cases h
  · next hletters =>
    cases h
    rw [option?, hletters]
    rfl
  · cases h
  · cases h
  · cases h

/-- After a single dash there is something. -/
theorem ne_nil_of_shape (h : shape arg = .short rest) : rest ≠ [] := by
  rintro rfl
  have hletters : arg.toList = ['-'] := by
    unfold shape at h
    split at h
    · cases h
    · cases h
    · cases h
    · next hdash =>
      cases h
      exact hdash
    · cases h
  simp [shape, hletters] at h

theorem shape_spelt (h : Opt.IsName name) (value : Option String) :
    shape (spelt false name value) = .long (name.toList ++ (inlined value).toList) := by
  cases hname : name.toList with
  | nil =>
    have hlong := h.long
    rw [hname] at hlong
    cases hlong
  | cons c cs => simp [shape, spelt, hname]

namespace Reading

/-- An option is taken in with its value. -/
def add (r : Reading) (o : Opt) (v : o.kind.Value) : Reading :=
  { r with choices := r.choices.take o v, given := o :: r.given }

def addTargets (r : Reading) (targets : List Path) : Reading :=
  { r with choices := { r.choices with targets := r.choices.targets ++ targets } }

theorem choices_add (r : Reading) (o : Opt) (v : o.kind.Value) :
    (r.add o v).choices = r.choices.take o v := rfl

theorem accept_eq_ok_iff {s : String} : r.accept o s = .ok r' ↔
    (o.repeats ∨ o ∉ r.given) ∧ ∃ v, o.kind.read s = .ok v ∧ r' = r.add o v := by
  have hagain : (!o.repeats && r.given.contains o) = true ↔ ¬(o.repeats ∨ o ∉ r.given) := by simp
  unfold accept
  split
  · next h =>
    have hnot := hagain.mp h
    exact ⟨nofun, fun hok => absurd hok.1 hnot⟩
  · next h =>
    have hnew : o.repeats ∨ o ∉ r.given := Decidable.of_not_not (mt hagain.mpr h)
    cases hread : o.kind.read s with
    | error fault => cases fault <;> simp
    | ok v =>
      simp only [Except.ok.injEq, exists_eq_left', hnew, true_and]
      exact eq_comm

theorem settlePending_nothing (h : r.pending = .nothing) : r.settlePending = .ok r := by
  rw [settlePending, h]
  exact congrArg Except.ok (h ▸ rfl)

theorem switch_eq (h : o.asks = false) : r.switch o = r.settlePending.bind fun r => r.accept o "" := by
  unfold switch
  cases r.settlePending with
  | error refusal => rfl
  | ok r => cases o <;> first | rfl | cases h

theorem switch_asks (h : o.asks) : ∃ refusal, r.switch o = .error refusal := by
  unfold switch
  cases r.settlePending with
  | error refusal => exact ⟨refusal, rfl⟩
  | ok r => cases o <;> first | exact ⟨_, rfl⟩ | cases h

theorem long_unknown (h : named? rest = none) : ∃ refusal, r.long rest = .error refusal := by
  cases hcut : Text.cutAt '=' rest with
  | some cut =>
    have hname : Opt.ofName? (String.ofList cut.1) = none := by simpa [named?, hcut] using h
    refine ⟨.unknown ("--" ++ String.ofList cut.1), ?_⟩
    simp only [long, hcut, hname]
  | none =>
    have hname : Opt.ofName? (String.ofList rest) = none := by simpa [named?, hcut] using h
    refine ⟨.unknown ("--" ++ String.ofList rest), ?_⟩
    simp only [long, hcut, hname]

theorem long_named (h : named? rest = some (o, value)) : r.long rest =
    if o.takesValue then
      match value with
      | some v => r.settlePending.bind fun r => r.accept o v
      | none => r.settlePending.map fun r => { r with pending := .option o none }
    else match value with
      | some v => .error (.valueUnneeded o.shown v)
      | none => r.switch o := by
  cases hcut : Text.cutAt '=' rest with
  | some cut =>
    simp only [named?, hcut] at h
    obtain ⟨o', hname, heq⟩ := Option.map_eq_some_iff.mp h
    cases heq
    simp only [long, hcut, hname]
  | none =>
    simp only [named?, hcut] at h
    obtain ⟨o', hname, heq⟩ := Option.map_eq_some_iff.mp h
    cases heq
    simp only [long, hcut, hname]

theorem mapM_readPath (values : List String) :
    (values.mapM fun s => (readPath s).mapError fun _ => Refusal.valueMissing targetsShown) =
      if ∀ s ∈ values, s ≠ "" then .ok (values.map Path.mk)
      else .error (.valueMissing targetsShown) := by
  induction values with
  | nil => rfl
  | cons s values ih =>
    rw [List.mapM_cons, ih]
    by_cases hs : s = ""
    · subst hs
      rfl
    · have hread : readPath s = .ok ⟨s⟩ := if_neg (by simpa using hs)
      simp only [hread, List.forall_mem_cons, ne_eq, hs, not_false_eq_true, true_and]
      split <;> rfl

/-- Targets are taken in as they stand, but for an empty one. -/
theorem acceptTargets_eq_ok_iff {values : List String} : r.acceptTargets values = .ok r' ↔
    (∀ s ∈ values, s ≠ "") ∧ r' = r.addTargets (values.map Path.mk) := by
  rw [acceptTargets, mapM_readPath]
  split
  · next hfull =>
    exact ⟨fun h => ⟨hfull, (Except.ok.inj h).symm⟩, fun h => congrArg Except.ok h.2.symm⟩
  · next hempty => exact ⟨nofun, fun h => absurd h.1 hempty⟩

/-- After settling nothing is pending. -/
theorem pending_of_settlePending (h : r.settlePending = .ok r') : r'.pending = .nothing := by
  rw [settlePending] at h
  cases hpending : r.pending with
  | nothing =>
    rw [hpending] at h
    cases h
    rfl
  | option o value =>
    rw [hpending] at h
    cases value with
    | none => cases h
    | some v =>
      obtain ⟨-, v, -, rfl⟩ := accept_eq_ok_iff.mp h
      rfl
  | targets values =>
    rw [hpending] at h
    obtain ⟨-, rfl⟩ := acceptTargets_eq_ok_iff.mp h
    rfl

theorem pending_of_waiting (h : r.waiting = some o) : r.pending = .option o none := by
  unfold waiting at h
  split at h
  · cases h
    assumption
  · cases h

theorem settlePending_waiting (h : r.waiting = some o) :
    r.settlePending = .error (.valueMissing o.shown) := by
  rw [settlePending, pending_of_waiting h]

/-- While an option waits for its value no other one can follow. -/
theorem long_waiting (h : r.waiting = some o) (rest : List Char) :
    ∃ refusal, r.long rest = .error refusal := by
  have hsettle := settlePending_waiting h
  cases hnamed : named? rest with
  | none => exact long_unknown hnamed
  | some found =>
    obtain ⟨o', value⟩ := found
    rw [long_named hnamed, hsettle]
    cases value with
    | some v => split <;> exact ⟨_, rfl⟩
    | none =>
      split
      · exact ⟨_, rfl⟩
      · rw [switch, hsettle]
        exact ⟨_, rfl⟩

theorem target_waiting (h : r.waiting = some o) (arg : String) :
    r.target arg = .error (.valueMissing o.shown) := by
  rw [target, pending_of_waiting h]
  simp only [settlePending_waiting h, Except.map]

/-- A target joins the ones before it, or what is pending is settled first. -/
theorem target_cases (h : r.target arg = .ok r') :
    (∃ values, r.pending = .targets values ∧ r' = { r with pending := .targets (values ++ [arg]) }) ∨
    ∃ r₁, r.settlePending = .ok r₁ ∧ r' = { r₁ with pending := .targets [arg] } := by
  unfold target at h
  split at h
  · next values hpending =>
    cases h
    exact .inl ⟨values, hpending, rfl⟩
  · cases hsettle : r.settlePending with
    | error refusal =>
      rw [hsettle] at h
      cases h
    | ok r₁ =>
      rw [hsettle] at h
      cases h
      exact .inr ⟨r₁, rfl, rfl⟩

/-- What is pending is settled before an option, which is then taken in or waits for its value. -/
theorem long_cases (hnamed : named? rest = some (o, value)) (h : r.long rest = .ok r') :
    ∃ r₁, r.settlePending = .ok r₁ ∧
      ((∃ v, o.takesValue ∧ value = some v ∧ r₁.accept o v = .ok r') ∨
        (o.takesValue ∧ value = none ∧ r' = { r₁ with pending := .option o none }) ∨
        (o.takesValue = false ∧ value = none ∧ r₁.accept o "" = .ok r')) := by
  rw [long_named hnamed] at h
  cases htakes : o.takesValue with
  | true =>
    simp only [htakes, ↓reduceIte] at h
    cases value with
    | some v =>
      obtain ⟨r₁, hsettle, haccept⟩ := bind_eq_ok h
      exact ⟨r₁, hsettle, .inl ⟨v, rfl, rfl, haccept⟩⟩
    | none =>
      cases hsettle : r.settlePending with
      | error refusal =>
        rw [hsettle] at h
        cases h
      | ok r₁ =>
        rw [hsettle] at h
        cases h
        exact ⟨r₁, rfl, .inr (.inl ⟨rfl, rfl, rfl⟩)⟩
  | false =>
    simp only [htakes, Bool.false_eq_true, ↓reduceIte] at h
    cases value with
    | some v => cases h
    | none =>
      cases hasks : o.asks with
      | true =>
        obtain ⟨refusal, hrefused⟩ := switch_asks (r := r) hasks
        cases h.symm.trans hrefused
      | false =>
        rw [switch_eq hasks] at h
        obtain ⟨r₁, hsettle, haccept⟩ := bind_eq_ok h
        exact ⟨r₁, hsettle, .inr (.inr ⟨rfl, rfl, haccept⟩)⟩

theorem pending_of_accept {s : String} (h : r.accept o s = .ok r') : r'.pending = r.pending := by
  obtain ⟨-, v, -, rfl⟩ := accept_eq_ok_iff.mp h
  rfl

theorem waiting_of_target (h : r.target arg = .ok r') : r'.waiting = none := by
  obtain ⟨values, -, rfl⟩ | ⟨r₁, -, rfl⟩ := target_cases h
  · rfl
  · rfl

/-- After an option its value is waited for, unless it has none or has it already. -/
theorem waiting_of_long (hnamed : named? rest = some (o, value)) (h : r.long rest = .ok r') :
    r'.waiting = if o.takesValue && value.isNone then some o else none := by
  obtain ⟨r₁, hsettle, hcases⟩ := long_cases hnamed h
  have hpending := pending_of_settlePending hsettle
  obtain ⟨v, -, rfl, haccept⟩ | ⟨htakes, rfl, rfl⟩ | ⟨htakes, rfl, haccept⟩ := hcases
  · rw [waiting, pending_of_accept haccept, hpending, Option.isNone_some, Bool.and_false]
    rfl
  · rw [waiting, htakes]
    rfl
  · rw [waiting, pending_of_accept haccept, hpending, htakes]
    rfl

end Reading

theorem parse_eq_ok_iff {args : List String} {result : Settings × List Path} :
    parse args = .ok result ↔ ∃ r, readArguments {} args = .ok r ∧
      ∃ r', r.settlePending = .ok r' ∧ r'.choices.resolved = result := by
  rw [parse]
  generalize readArguments {} args = read
  cases read with
  | error refusal => simp [bind, Except.bind]
  | ok r =>
    cases hsettle : r.settlePending with
    | error refusal => simp [bind, Except.bind, hsettle]
    | ok r' => simp [bind, Except.bind, pure, Except.pure, hsettle]

end Regression.CommandLine
