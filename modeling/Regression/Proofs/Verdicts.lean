import Regression.Proofs.Markers
import Regression.Proofs.Names
import Regression.Proofs.Tools

namespace Regression.Skip

/-- What comes of the condition in a marker. -/
inductive Reply where
  /-- The marker is no file. -/
  | absent
  /-- The helper is not there, does not start or does not end well. -/
  | failed
  | printed (output : ConditionOutput)

namespace Reply

def skips : Reply → Bool
  | printed output => output.skip
  | _ => false

def warnings (warning : String) : Reply → List String
  | failed => [warning]
  | _ => []

def remarks : Reply → List String
  | printed output => output.info
  | _ => []

end Reply

section Conditions

variable (c : Context) (d : Path) (marker : Option Path) (m : Machine)

/-- The reply on a machine, whatever its tools are. -/
def reply : Reply :=
  match marker.filter m.isFile with
  | none => .absent
  | some script =>
    if m.isExecutable (helper c) then
      match Command.printed (m.tools m.commands (question c d script) m.directory m.files) with
      | some text => .printed (.parse text)
      | none => .failed
    else .failed

/-- What the helper is started with, where the marker is a file and the helper is there. -/
def questions : List Command :=
  if m.isExecutable (helper c) then (marker.filter m.isFile).toList.map (question c d) else []

/-- The machine after a question to the helper. -/
def ask (m : Machine) (q : Command) : Machine := (q.capture.on m).2

/-- Whether the marker that prunes at once is there. -/
def marked : Bool := (sibling? d "notest").any m.isFile

/-- What comes of the marker beside the directory. -/
def beside : Reply := reply c d (sibling? d "skipif") m

def besideAsked : List Command := questions c d (sibling? d "skipif") m

/-- The machine on which the markers inside are looked at. -/
def entered : Machine := (besideAsked c d m).foldl ask m

/-- What comes of the condition inside. -/
def inside : Reply := reply c d (some (d / "SKIPIF")) (entered c d m)

def insideAsked : List Command := questions c d (some (d / "SKIPIF")) (entered c d m)

/-- The machine on which the last marker is looked at. -/
def settled : Machine := (insideAsked c d m).foldl ask (entered c d m)

/-- All that the helper is asked. -/
def allAsked : List Command :=
  if marked d m then []
  else besideAsked c d m ++ if (beside c d m).skips then [] else insideAsked c d m

end Conditions

variable {c : Context} {d : Path} {marker : Option Path} {m : Machine} {warning : String}
  {v : Verdict}

theorem marker_of_skips (h : (reply c d marker m).skips) : marker.isSome := by
  unfold reply at h
  cases marker with
  | none => cases h
  | some script => rfl

theorem ask_eq (m : Machine) (q : Command) : ask m q = ((attempt q.capture).on m).2 := by
  rw [attempt_on, ask]

theorem reply_absent (h : marker.filter m.isFile = none) :
    reply c d marker m = .absent ∧ questions c d marker m = [] := by
  simp [reply, questions, h]

theorem reply_unasked {script : Path} (h : marker.filter m.isFile = some script)
    (hhelper : m.isExecutable (helper c) = false) :
    reply c d marker m = .failed ∧ questions c d marker m = [] := by
  simp [reply, questions, h, hhelper]

theorem reply_asked {script : Path} (h : marker.filter m.isFile = some script)
    (hhelper : m.isExecutable (helper c) = true) :
    reply c d marker m =
        (match Command.printed
            (m.tools m.commands (question c d script) m.directory m.files) with
          | some text => .printed (.parse text)
          | none => .failed) ∧
      questions c d marker m = [question c d script] := by
  simp [reply, questions, h, hhelper]

/-- Every way a condition can go: there is none, the helper is not there, it fails, or it
replies. -/
theorem condition_on : (condition c d marker warning v).on m =
    ((if (reply c d marker m).skips then marker else none,
      { v with
        warnings := v.warnings ++ (reply c d marker m).warnings warning
        info := v.info ++ (reply c d marker m).remarks }),
      (questions c d marker m).foldl ask m) := by
  cases marker with
  | none =>
    have hmissing : (none : Option Path).filter m.isFile = none := rfl
    obtain ⟨hreply, hquestions⟩ := reply_absent (c := c) (d := d) hmissing
    simp [condition, Effect.on_pure, hreply, hquestions, Reply.skips, Reply.warnings, Reply.remarks]
  | some script =>
    rw [condition, Effect.on_bind, Effect.on_get]
    dsimp only
    by_cases hfile : m.isFile script
    · have hfound : (some script).filter m.isFile = some script := by simp [hfile]
      rw [if_neg (by simp [hfile]), Effect.on_bind, attempt_checkCondition_on]
      by_cases hhelper : m.isExecutable (helper c)
      · obtain ⟨hreply, hquestions⟩ := reply_asked (c := c) (d := d) hfound hhelper
        rw [if_pos hhelper, hreply, hquestions, List.foldl_cons, List.foldl_nil, ask_eq,
          Command.attempt_capture_on]
        cases Command.printed
            (m.tools m.commands (question c d script) m.directory m.files) with
        | none => simp [Effect.on_pure, Reply.skips, Reply.warnings, Reply.remarks]
        | some text =>
          rw [Reply.warnings, List.append_nil]
          · rfl
          · nofun
      · obtain ⟨hreply, hquestions⟩ :=
          reply_unasked (c := c) (d := d) hfound (Bool.not_eq_true _ ▸ hhelper)
        rw [if_neg hhelper, hreply, hquestions]
        simp [Effect.on_pure, Reply.skips, Reply.warnings, Reply.remarks]
    · have hmissing : (some script).filter m.isFile = none := by simp [hfile]
      obtain ⟨hreply, hquestions⟩ := reply_absent (c := c) (d := d) hmissing
      rw [if_pos (by simp [hfile]), hreply, hquestions]
      simp [Effect.on_pure, Reply.skips, Reply.warnings, Reply.remarks]

/-- Where a condition holds, its marker is there. -/
theorem evaluate_on : (evaluate c d).on m =
    if marked d m then ({ directive := .prune .notestSibling, marker := sibling? d "notest" }, m)
    else
      let v : Verdict :=
        { warnings := (beside c d m).warnings "[Warning: .skipif error.]"
          info := (beside c d m).remarks }
      if (beside c d m).skips then
        ({ v with directive := .prune .skipifSibling, marker := sibling? d "skipif" },
          entered c d m)
      else
        let v : Verdict :=
          { warnings := v.warnings ++ (inside c d m).warnings "[Warning: SKIPIF error.]"
            info := v.info ++ (inside c d m).remarks }
        if (inside c d m).skips then
          ({ v with directive := .skipSelf .skipif, marker := some (d / "SKIPIF") }, settled c d m)
        else if (settled c d m).isFile (d / "NOTEST") then
          ({ v with directive := .skipSelf .notest, marker := some (d / "NOTEST") }, settled c d m)
        else (v, settled c d m) := by
  have hmark : ((sibling? d "notest").any m.isFile) = marked d m := rfl
  have hbeside : reply c d (sibling? d "skipif") m = beside c d m := rfl
  have hentered : (questions c d (sibling? d "skipif") m).foldl ask m = entered c d m := rfl
  have hinside : reply c d (some (d / "SKIPIF")) (entered c d m) = inside c d m := rfl
  have hsettled : (questions c d (some (d / "SKIPIF")) (entered c d m)).foldl ask (entered c d m) =
      settled c d m := rfl
  unfold evaluate
  simp only [Effect.on_bind, Effect.on_get, hmark]
  by_cases hmarked : marked d m
  · rw [if_pos hmarked, if_pos hmarked, Effect.on_pure]
  · rw [if_neg hmarked, if_neg hmarked]
    simp only [Effect.on_bind, condition_on, hbeside, hentered]
    by_cases hskips : (beside c d m).skips
    · have hfired : (sibling? d "skipif").isSome := marker_of_skips hskips
      simp only [if_pos hskips, if_pos hfired, Effect.on_pure]
      rfl
    · simp only [if_neg hskips, Option.isSome_none, Bool.false_eq_true, ↓reduceIte, Effect.on_bind,
        condition_on, hinside, hsettled]
      by_cases hskips' : (inside c d m).skips
      · simp only [if_pos hskips', Option.isSome_some, ↓reduceIte, Effect.on_pure]
        rfl
      · simp only [if_neg hskips', Option.isSome_none, Bool.false_eq_true, ↓reduceIte]
        rw [Effect.on_bind, Effect.on_get]
        by_cases hnotest : (settled c d m).isFile (d / "NOTEST")
        · rw [if_pos hnotest, if_pos hnotest, Effect.on_pure]
          rfl
        · rw [if_neg hnotest, if_neg hnotest, Effect.on_pure]
          rfl

/-- The file that stands for a reason to skip a directory. -/
def place (d : Path) : SkipReason → Option Path
  | .notestSibling => sibling? d "notest"
  | .skipifSibling => sibling? d "skipif"
  | .skipif => some (d / "SKIPIF")
  | .notest => some (d / "NOTEST")

/-- Which marker decides about a directory. Each is looked at when those before it have been, as
their conditions have left the files. -/
structure Chooses (c : Context) (d : Path) (m : Machine) (v : Verdict) : Prop where
  notestSibling : v.directive = .prune .notestSibling ↔ marked d m
  skipifSibling : v.directive = .prune .skipifSibling ↔ ¬marked d m ∧ (beside c d m).skips
  skipif : v.directive = .skipSelf .skipif ↔
    ¬marked d m ∧ ¬(beside c d m).skips ∧ (inside c d m).skips
  notest : v.directive = .skipSelf .notest ↔ ¬marked d m ∧ ¬(beside c d m).skips ∧
    ¬(inside c d m).skips ∧ (settled c d m).isFile (d / "NOTEST")
  test : v.directive = .test ↔ ¬marked d m ∧ ¬(beside c d m).skips ∧
    ¬(inside c d m).skips ∧ ¬(settled c d m).isFile (d / "NOTEST")
  marker : v.marker = v.directive.reason?.bind fun reason => place d reason
  fired : v.marker = none ↔ v.directive = .test

/-- What is told of the conditions, in their order. -/
structure Tells (c : Context) (d : Path) (m : Machine) (v : Verdict) : Prop where
  warnings : v.warnings = if marked d m then [] else
    (beside c d m).warnings "[Warning: .skipif error.]" ++
      if (beside c d m).skips then [] else (inside c d m).warnings "[Warning: SKIPIF error.]"
  info : v.info = if marked d m then [] else
    (beside c d m).remarks ++ if (beside c d m).skips then [] else (inside c d m).remarks

/-- Nothing is done but to ask the helper, inside the directory, about no condition twice. -/
structure Asks (c : Context) (d : Path) (m m' : Machine) : Prop where
  machine : m' = (allAsked c d m).foldl ask m
  started : m'.started = m.started ++ allAsked c d m
  once : (allAsked c d m).Nodup
  within : ∀ q ∈ allAsked c d m, q.directory = some d

theorem sibling_ne {p : Path} (h : sibling? d "skipif" = some p) : p ≠ d / "SKIPIF" := by
  simp only [sibling?, Option.bind_eq_bind, Option.bind_eq_some_iff, Option.pure_def,
    Option.some.injEq] at h
  obtain ⟨name, -, parent, -, rfl⟩ := h
  have hdot : name ++ "." ≠ "" := by simp
  obtain ⟨before, hbefore⟩ := parent.join_ending hdot
  obtain ⟨above, habove⟩ := d.join_ending (s := "S") (by decide)
  intro heq
  have hends := congrArg (fun p => p.text.toList.getLast?) ((hbefore "skipif").symm.trans
    (heq.trans (habove "KIPIF")))
  simp at hends

theorem started_asks (qs : List Command) (m : Machine) :
    (qs.foldl ask m).started = m.started ++ qs := by
  induction qs generalizing m with
  | nil => rw [List.foldl_nil, List.append_nil]
  | cons q qs ih =>
    rw [List.foldl_cons, ih, ask_eq, Command.attempt_capture_started, List.append_assoc]
    rfl

/-- A marker that is a file is asked about once, inside the directory. -/
theorem mem_questions {q : Command} (h : q ∈ questions c d marker m) :
    ∃ script, marker = some script ∧ q = question c d script := by
  unfold questions at h
  split at h
  · obtain ⟨script, hscript, rfl⟩ := List.mem_map.mp h
    exact ⟨script, (Option.filter_eq_some_iff.mp (Option.mem_toList.mp hscript)).1, rfl⟩
  · cases h

theorem questions_nodup : (questions c d marker m).Nodup := by
  unfold questions
  split
  · cases marker.filter m.isFile with
    | none => exact .nil
    | some script => exact List.pairwise_singleton _ _
  · exact .nil

theorem allAsked_nodup (c : Context) (d : Path) (m : Machine) : (allAsked c d m).Nodup := by
  have hapart : ∀ q ∈ besideAsked c d m, ∀ q' ∈ insideAsked c d m, q ≠ q' := by
    intro q hbeside q' hinside hsame
    obtain ⟨script, hscript, rfl⟩ := mem_questions hbeside
    obtain ⟨script', hscript', rfl⟩ := mem_questions hinside
    cases hscript'
    have harguments : [script.text] = [(d / "SKIPIF").text] := congrArg Command.arguments hsame
    refine sibling_ne hscript ?_
    cases script
    exact congrArg Path.mk (List.singleton_inj.mp harguments)
  unfold allAsked
  split
  · exact .nil
  · split
    · rw [List.append_nil]
      exact questions_nodup
    · exact List.nodup_append.mpr ⟨questions_nodup, questions_nodup, hapart⟩

theorem directory_of_allAsked {q : Command} (h : q ∈ allAsked c d m) : q.directory = some d := by
  unfold allAsked at h
  split at h
  · cases h
  · rcases List.mem_append.mp h with h | h
    · obtain ⟨script, -, rfl⟩ := mem_questions h
      rfl
    · split at h
      · cases h
      · obtain ⟨script, -, rfl⟩ := mem_questions h
        rfl

theorem evaluate_chooses (c : Context) (d : Path) (m : Machine) :
    Chooses c d m ((evaluate c d).on m).1 := by
  rw [evaluate_on]
  by_cases hmarked : marked d m
  · have hthere : sibling? d "notest" ≠ none := by
      intro hnone
      simp [marked, hnone] at hmarked
    rw [if_pos hmarked]
    constructor <;> simp [hmarked, hthere, place, SkipDirective.reason?]
  · rw [if_neg hmarked]
    by_cases hbeside : (beside c d m).skips
    · have hthere : sibling? d "skipif" ≠ none :=
        Option.isSome_iff_ne_none.mp (marker_of_skips hbeside)
      rw [if_pos hbeside]
      constructor <;> simp [hmarked, hbeside, hthere, place, SkipDirective.reason?]
    · rw [if_neg hbeside]
      by_cases hinside : (inside c d m).skips
      · rw [if_pos hinside]
        constructor <;> simp [hmarked, hbeside, hinside, place, SkipDirective.reason?]
      · rw [if_neg hinside]
        by_cases hnotest : (settled c d m).isFile (d / "NOTEST")
        · rw [if_pos hnotest]
          constructor <;> simp [hmarked, hbeside, hinside, hnotest, place, SkipDirective.reason?]
        · rw [if_neg hnotest]
          constructor <;> simp [hmarked, hbeside, hinside, hnotest, SkipDirective.reason?]

theorem evaluate_tells (c : Context) (d : Path) (m : Machine) :
    Tells c d m ((evaluate c d).on m).1 := by
  rw [evaluate_on]
  by_cases hmarked : marked d m
  · rw [if_pos hmarked]
    exact ⟨(if_pos hmarked).symm, (if_pos hmarked).symm⟩
  · rw [if_neg hmarked]
    by_cases hbeside : (beside c d m).skips
    · rw [if_pos hbeside]
      constructor <;> simp [hmarked, hbeside]
    · rw [if_neg hbeside]
      split
      · constructor <;> simp [hmarked, hbeside]
      · split <;> constructor <;> simp [hmarked, hbeside]

theorem evaluate_asks (c : Context) (d : Path) (m : Machine) :
    Asks c d m ((evaluate c d).on m).2 := by
  have hmachine : ((evaluate c d).on m).2 = (allAsked c d m).foldl ask m := by
    rw [evaluate_on, allAsked]
    split
    · rfl
    · rw [List.foldl_append]
      split
      · rfl
      · split
        · rfl
        · split <;> rfl
  rw [hmachine]
  exact ⟨rfl, started_asks _ _, allAsked_nodup c d m, fun _ => directory_of_allAsked⟩

end Regression.Skip
