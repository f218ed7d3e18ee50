import Regression.Proofs.View
import Regression.Skip

namespace Regression.Skip

/-- What the helper is started with to decide about a condition. -/
def question (c : Context) (directory script : Path) : Command :=
  { program := (helper c).text
    arguments := [script.text]
    environment := c.scope none
    directory := some directory }

/-- A file whose condition can be asked about for a directory. -/
def IsMarker (directory script : Path) : Prop :=
  sibling? directory "skipif" = some script ∨ script = directory / "SKIPIF"

section Reading

variable {τ : Type} (t : FileTree) (cwd : Location) (c : Context) (fires : Path → Path → Bool)
  (tells : Path → Path → List τ) (d : Path)

/-- Whether the helper is asked about a marker. -/
def isAsked (marker : Option Path) : Bool :=
  marker.any (t.isFile cwd) && t.isExecutable cwd (helper c)

/-- What is told of asking about a marker. -/
def told (marker : Option Path) : List τ :=
  if isAsked t cwd c marker then marker.toList.flatMap (tells d) else []

/-- Whether the condition in a marker holds; `fires` is how the helper decides. -/
def holds (marker : Option Path) : Bool :=
  isAsked t cwd c marker && marker.any (fires d)

/-- What the markers of a directory say. -/
def directive : SkipDirective :=
  if (sibling? d "notest").any (t.isFile cwd) then .prune .notestSibling
  else if holds t cwd c fires d (sibling? d "skipif") then .prune .skipifSibling
  else if holds t cwd c fires d (some (d / "SKIPIF")) then .skipSelf .skipif
  else if t.isFile cwd (d / "NOTEST") then .skipSelf .notest
  else .test

/-- What is told of asking about a directory. -/
def asked : List τ :=
  if (sibling? d "notest").any (t.isFile cwd) then []
  else told t cwd c tells d (sibling? d "skipif") ++
    if holds t cwd c fires d (sibling? d "skipif") then []
    else told t cwd c tells d (some (d / "SKIPIF"))

end Reading

variable {τ : Type} {c : Context} {t : FileTree} {cwd : Location} {fires : Path → Path → Bool}
  {I : Machine → Prop} {seen : Machine → List τ} {tells : Path → Path → List τ}

/-- A helper that decides about each condition that it is asked about as `fires` does, whichever of the
machines `I` asks it, where `tells` is what the record takes down. -/
structure Decides (c : Context) (t : FileTree) (cwd : Location) (fires : Path → Path → Bool)
    (I : Machine → Prop) (seen : Machine → List τ) (tells : Path → Path → List τ) : Prop where
  shows : ∀ m, I m → m.Shows t cwd
  answers : ∀ d script, IsMarker d script → isAsked t cwd c (some script) →
    Effect.Gives I seen (attempt (question c d script).capture) fun output new =>
      (output.any fun text => (ConditionOutput.parse text).skip) = fires d script ∧
        new = tells d script

theorem attempt_checkCondition_on (c : Context) (d script : Path) (m : Machine) :
    (attempt (checkCondition c d script)).on m =
      if m.isExecutable (helper c) then
        (((attempt (question c d script).capture).on m).1.map ConditionOutput.parse,
          ((attempt (question c d script).capture).on m).2)
      else (none, m) := by
  simp only [attempt_on, checkCondition, Job.on_bind, Job.on_get]
  cases hx : m.isExecutable (helper c) with
  | false => rfl
  | true =>
    simp only [Bool.not_true, Bool.false_eq_true, ↓reduceIte, Job.on_bind, question]
    split <;> simp_all [Except.toOption]

theorem checkCondition_gives (h : Decides c t cwd fires I seen tells) {d script : Path}
    (hmarker : IsMarker d script) (hfile : t.isFile cwd script = true) :
    Effect.Gives I seen (attempt (checkCondition c d script)) fun output new =>
      output.any ConditionOutput.skip = (t.isExecutable cwd (helper c) && fires d script) ∧
        new = if t.isExecutable cwd (helper c) then tells d script else [] := by
  intro m hm
  rw [attempt_checkCondition_on, (h.shows m hm).isExecutable]
  cases hx : t.isExecutable cwd (helper c) with
  | false => exact ⟨[], hm, (List.append_nil _).symm, rfl, rfl⟩
  | true =>
    have hasked : isAsked t cwd c (some script) = true := by simp [isAsked, hfile, hx]
    obtain ⟨new, hm', hadd, hskip, hnew⟩ := h.answers d script hmarker hasked m hm
    refine ⟨new, hm', hadd, ?_, hnew⟩
    simpa [Option.any_map] using hskip

theorem condition_gives (h : Decides c t cwd fires I seen tells) {d : Path} {marker : Option Path}
    (hmarker : ∀ script ∈ marker, IsMarker d script) (warning : String) (v : Verdict) :
    (condition c d marker warning v).Gives I seen fun r new =>
      r.1.isSome = holds t cwd c fires d marker ∧ r.2.directive = v.directive ∧
        new = told t cwd c tells d marker := by
  cases marker with
  | none => exact Effect.Gives.pure ⟨rfl, rfl, rfl⟩
  | some script =>
    unfold condition
    refine Effect.Gives.bind Effect.Gives.get ?_
    intro m _ hm
    obtain ⟨hm, rfl⟩ := hm
    rw [(h.shows m hm).isFile]
    cases hf : t.isFile cwd script with
    | false =>
      refine Effect.Gives.pure ?_
      simp [holds, told, isAsked, hf]
    | true =>
      refine Effect.Gives.bind (checkCondition_gives h (hmarker script rfl) hf) ?_
      intro output new hgiven
      obtain ⟨hskip, rfl⟩ := hgiven
      cases output with
      | none =>
        refine Effect.Gives.pure ?_
        simp_all [holds, told, isAsked]
      | some output =>
        refine Effect.Gives.pure ?_
        cases hs : output.skip <;> simp_all [holds, told, isAsked]

theorem evaluate_gives (h : Decides c t cwd fires I seen tells) (d : Path) :
    (evaluate c d).Gives I seen fun v new =>
      v.directive = directive t cwd c fires d ∧ new = asked t cwd c fires tells d := by
  unfold evaluate
  refine Effect.Gives.bind Effect.Gives.get ?_
  intro m₁ _ hm₁
  obtain ⟨hm₁, rfl⟩ := hm₁
  rw [funext (h.shows m₁ hm₁).isFile]
  simp only [directive, asked]
  split
  · exact Effect.Gives.pure ⟨rfl, rfl⟩
  · refine Effect.Gives.bind (condition_gives h (fun _ hscript => .inl hscript) _ _) ?_
    intro r first hgiven
    obtain ⟨fired, v⟩ := r
    obtain ⟨hfired, hv, rfl⟩ := hgiven
    simp only at hfired hv ⊢
    rw [hfired]
    split
    · refine Effect.Gives.pure ?_
      simp
    · refine Effect.Gives.bind (condition_gives h (fun _ hscript => .inr ?_) _ _) ?_
      · exact (Option.mem_some.mp hscript).symm
      intro r second hgiven
      obtain ⟨fired', v'⟩ := r
      obtain ⟨hfired', hv', rfl⟩ := hgiven
      simp only at hfired' hv' ⊢
      rw [hfired']
      split
      · refine Effect.Gives.pure ?_
        simp
      · refine Effect.Gives.bind Effect.Gives.get ?_
        intro m₂ _ hm₂
        obtain ⟨hm₂, rfl⟩ := hm₂
        rw [(h.shows m₂ hm₂).isFile]
        split
        · exact Effect.Gives.pure ⟨rfl, by simp⟩
        · exact Effect.Gives.pure ⟨hv'.trans hv, by simp⟩

end Regression.Skip
