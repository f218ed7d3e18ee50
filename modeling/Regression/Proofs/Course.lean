import Regression.Proofs.LastingSetup
import Regression.Proofs.Sorting

namespace Regression.Session

variable {s : Session} {m m' m₁ m₂ : Machine} {A : Command → Prop} {P : Machine → Prop}
  {scratch : Scratch} {targets : List Path}

/-- A session that has its directory for the runners and has begun its log. -/
def Begins (s : Session) (m : Machine) (scratch : Scratch) (m₁ : Machine) : Prop :=
  ∃ m₀, s.openScratch.on m = (.ok scratch, m₀) ∧ s.openLog.on m₀ = (.ok (), m₁)

/-- Setup and all tests of the sorted targets. -/
def work (s : Session) (scratch : Scratch) (sorted : List Target) : Job Unit :=
  s.execute scratch (sorted.filterMap Target.file?) (sorted.filterMap Target.directory?)

/-- The tests once the targets are sorted. -/
def testSorted (s : Session) (scratch : Scratch) (targets : List Path) (sorted : List Target) :
    Job Ending := do
  if sorted.isEmpty && !targets.isEmpty then
    return .untested
  match ← outcome (s.work scratch sorted) with
  | .ok () => return .tested (← s.report)
  | .error (.fatal cause) =>
    note ("[Error: " ++ cause.message ++ "]")
    return .tested (← s.report)
  | .error e => return .failed e

theorem test_eq : s.test scratch targets =
    s.sortTargets targets >>= s.testSorted scratch targets := rfl

/-- What is said of the tests once they have ended. -/
def answer (s : Session) : Except Error Unit → Job Ending
  | .ok () => return .tested (← s.report)
  | .error (.fatal cause) => do
    note ("[Error: " ++ cause.message ++ "]")
    return .tested (← s.report)
  | .error e => return .failed e

theorem testSorted_eq {sorted : List Target} : s.testSorted scratch targets sorted =
    if sorted.isEmpty && !targets.isEmpty then pure .untested
    else outcome (s.work scratch sorted) >>= s.answer := rfl

/-- What tests of sorted targets go through, by what they end with. -/
inductive Stages (s : Session) (scratch : Scratch) (targets : List Path) (sorted : List Target)
    (m : Machine) : Ending → Machine → Prop where
  | untested (hnone : (sorted.isEmpty && !targets.isEmpty) = true) :
    Stages s scratch targets sorted m .untested m
  | failed {e : Error} {m₁ : Machine} (hsome : (sorted.isEmpty && !targets.isEmpty) = false)
    (hwork : (s.work scratch sorted).on m = (.error e, m₁)) :
    Stages s scratch targets sorted m (.failed e) m₁
  | fatal {cause : Fatal} {summary : Option Summary} {m₁ m₂ m₃ : Machine}
    (hsome : (sorted.isEmpty && !targets.isEmpty) = false)
    (hwork : (s.work scratch sorted).on m = (.error (.fatal cause), m₁))
    (hnote : (note ("[Error: " ++ cause.message ++ "]")).on m₁ = (.ok (), m₂))
    (hreport : s.report.on m₂ = (.ok summary, m₃)) :
    Stages s scratch targets sorted m (.tested summary) m₃
  | passed {summary : Option Summary} {m₁ m₂ : Machine}
    (hsome : (sorted.isEmpty && !targets.isEmpty) = false)
    (hwork : (s.work scratch sorted).on m = (.ok (), m₁))
    (hreport : s.report.on m₁ = (.ok summary, m₂)) :
    Stages s scratch targets sorted m (.tested summary) m₂

theorem testSorted_stages {sorted : List Target} {ending : Ending}
    (hok : (s.testSorted scratch targets sorted).on m = (.ok ending, m')) :
    s.Stages scratch targets sorted m ending m' := by
  unfold testSorted at hok
  split at hok
  · next hnone =>
    cases hok
    exact .untested hnone
  · next hsome =>
    rw [Bool.not_eq_true] at hsome
    obtain ⟨result, m₂, hwork, hok⟩ := Job.bind_ok hok
    have hwork : (s.work scratch sorted).on m = (result, m₂) := Job.outcome_ok hwork
    split at hok
    · obtain ⟨summary, m₃, hreport, hok⟩ := Job.bind_ok hok
      cases hok
      exact .passed hsome hwork hreport
    · obtain ⟨_, m₃, hnote, hok⟩ := Job.bind_ok hok
      obtain ⟨summary, m₄, hreport, hok⟩ := Job.bind_ok hok
      cases hok
      exact .fatal hsome hwork hnote hreport
    · cases hok
      exact .failed hsome hwork

/-- A target that names something is tested. -/
theorem test_valid
    (hvalid : targets = [] ∨ ∃ target ∈ targets, (Target.classify m target s.cwd).isSome) :
    (s.test scratch targets).on m ≠ (.ok .untested, m') := by
  intro hok
  obtain ⟨sorted, m₁, hsort, hok⟩ := Job.bind_ok hok
  cases testSorted_stages hok with
  | untested hnone =>
    obtain ⟨hne, hall⟩ := (sortTargets_ok hsort).isEmpty_iff.mp hnone
    obtain rfl | ⟨target, hmem, hsome⟩ := hvalid
    · exact hne rfl
    · rw [hall target hmem] at hsome
      cases hsome

/-- Tests that succeed end with their phases. What holds before them holds when the phases begin. -/
theorem execute_ok {files directories : List Path} (h : Lasting scratch.path A P)
    (hA : Lasting.Grants A s.settings) (hm : P m)
    (hok : (s.execute scratch files directories).on m = (.ok (), m')) : ∃ (p : Phases) (m₁ : Machine),
      p.settings = s.settings ∧ Lasting.Planned scratch.path p.settings p.plan ∧ P m₁ ∧
      (p.run files (s.roots files directories)).on m₁ = (.ok (), m') := by
  have hfurnish : Furnishing scratch.path A s.settings (Context.Tmp scratch.path) P :=
    h.furnishing hA
  have hcreated : Context.Tmp scratch.path (s.created scratch) := rfl
  rw [execute_eq] at hok
  obtain ⟨made, m₁, hsetup, hok⟩ := Job.bind_ok hok
  obtain ⟨hm₁, hmade⟩ := Furnishing.run (s := s.setup) hfurnish hcreated m hm
  rw [hsetup] at hm₁ hmade
  obtain ⟨hcontext, hplanned⟩ := hmade made rfl
  obtain ⟨roots, m₂, hprelude, hphases⟩ := Job.bind_ok hok
  obtain ⟨hm₂, hroots⟩ := hfurnish.prelude hcontext files directories m₁ hm₁
  rw [hprelude] at hm₂ hroots
  rw [hroots roots rfl] at hphases
  exact ⟨s.phases made, m₂, rfl, hplanned, hm₂, hphases⟩

/-- What tests may end with: before anything was tested, by an error that is not told of, or by their
report. What holds all along the tests holds when the report begins. -/
inductive Tested (s : Session) (P : Machine → Prop) (m : Machine) : Ending → Prop where
  | untested (h : P m) : Tested s P m .untested
  | failed (e : Error) (h : P m) : Tested s P m (.failed e)
  | reported {before : Machine} {summary : Option Summary} (h : P before)
    (hreport : s.report.on before = (.ok summary, m)) : Tested s P m (.tested summary)

theorem Stages.tested {sorted : List Target} {ending : Ending}
    (h : Lasting scratch.path A P) (hA : Lasting.Grants A s.settings) (hm : P m)
    (hstages : s.Stages scratch targets sorted m ending m') : s.Tested P m' ending := by
  have hworks : ∀ {m₁} {result : Except Error Unit},
      (s.work scratch sorted).on m = (result, m₁) → P m₁ := fun hwork =>
    (h.execute hA _ _).leaves hm hwork
  cases hstages with
  | untested => exact .untested hm
  | failed _ hwork => exact .failed _ (hworks hwork)
  | fatal _ hwork hnote hreport =>
    exact .reported ((h.stays_note _).leaves (hworks hwork) hnote) hreport
  | passed _ hwork hreport => exact .reported (hworks hwork) hreport

theorem test_ok (h : Lasting scratch.path A P) (hA : Lasting.Grants A s.settings) (hm : P m)
    {ending : Ending} (hok : (s.test scratch targets).on m = (.ok ending, m')) :
    s.Tested P m' ending := by
  obtain ⟨sorted, m₁, hsort, hok⟩ := Job.bind_ok hok
  exact (testSorted_stages hok).tested h hA ((h.sortTargets targets).leaves hm hsort)

/-- A session whose log has been created tests and finishes. Where it fails it once more takes away
what it made for the runners. -/
theorem run_on (hbegins : s.Begins m scratch m₁) :
    (s.run targets).on m =
      match (s.test scratch targets).on m₁ with
      | (.error e, m₂) => (.error e, ((closeScratch scratch).on m₂).2)
      | (.ok ending, m₂) =>
        match (s.finish scratch ending).on m₂ with
        | (.error e, m₃) => (.error e, ((closeScratch scratch).on m₃).2)
        | (.ok r, m₃) => (.ok r, m₃) := by
  obtain ⟨m₀, hscratch, hlog⟩ := hbegins
  have hin : (s.runIn scratch targets).on m₀ =
      match (s.test scratch targets).on m₁ with
      | (.error e, m₂) => (.error e, m₂)
      | (.ok ending, m₂) => (s.finish scratch ending).on m₂ := by
    rw [runIn, Job.on_bind_ok hlog, Job.on_bind]
    cases (s.test scratch targets).on m₁ with
    | mk result m₂ => cases result <;> rfl
  have hrun : (s.run targets).on m =
      match (s.runIn scratch targets).on m₀ with
      | (.error e, m₂) => (.error e, ((closeScratch scratch).on m₂).2)
      | (.ok r, m₂) => (.ok r, m₂) := by
    rw [run, Job.on_bind_ok hscratch, Job.on_bind, Job.on_outcome]
    cases (s.runIn scratch targets).on m₀ with
    | mk result m₂ =>
      cases result with
      | error e =>
        simp only
        rw [Job.on_bind, Job.on_outcome]
        rfl
      | ok r => rfl
  rw [hrun, hin]
  cases (s.test scratch targets).on m₁ with
  | mk result m₂ => cases result <;> rfl

/-- A session that answers has been through all of its stages. -/
theorem run_ok {r : Outcome} (hok : (s.run targets).on m = (.ok r, m')) :
    ∃ scratch m₁ ending m₂, s.Begins m scratch m₁ ∧
      (s.test scratch targets).on m₁ = (.ok ending, m₂) ∧
      (s.finish scratch ending).on m₂ = (.ok r, m') := by
  obtain ⟨scratch, m₀, hscratch, hok⟩ := Job.bind_ok hok
  obtain ⟨result, m₃, hresult, hok⟩ := Job.bind_ok hok
  rw [Job.on_outcome] at hresult
  cases hrun : (s.runIn scratch targets).on m₀ with
  | mk answer m₄ =>
    rw [hrun] at hresult
    cases hresult
    cases answer with
    | error e =>
      obtain ⟨_, m₅, -, hok⟩ := Job.bind_ok hok
      cases hok
    | ok r' =>
      cases hok
      obtain ⟨_, m₁, hlog, hrun⟩ := Job.bind_ok hrun
      obtain ⟨ending, m₂, htest, hfinish⟩ := Job.bind_ok hrun
      exact ⟨scratch, m₁, ending, m₂, ⟨m₀, hscratch, hlog⟩, htest, hfinish⟩

/-- How a session begins does not depend on what it is to test. -/
theorem Begins.unique {scratch' : Scratch} (h : s.Begins m scratch m₁)
    (h' : s.Begins m scratch' m₂) : scratch = scratch' ∧ m₁ = m₂ := by
  obtain ⟨m₀, hscratch, hlog⟩ := h
  obtain ⟨m₀', hscratch', hlog'⟩ := h'
  rw [hscratch] at hscratch'
  cases hscratch'
  rw [hlog] at hlog'
  cases hlog'
  exact ⟨rfl, rfl⟩

/-- A session that only cleans has no summary. -/
theorem report_clean_eq (hclean : s.settings.cleanOnly = true) : s.report = (do
    note "[Summary: CLEAN ONLY]"
    noteBlank
    return none) := by
  unfold report
  rw [if_pos hclean]
  simp only [pure_bind]

/-- What a session answers whose tests were reported. -/
theorem finish_tested_ok {r : Outcome} {summary : Option Summary}
    (hok : (s.finish scratch (.tested summary)).on m = (.ok r, m')) :
    ∃ m₁, s.files.publish.on (stopLog.on m).2 = (.ok (), m₁) ∧
      r = s.outcomeOf (if summary.any Summary.hasFailures then .failures else .success) summary := by
  unfold finish at hok
  obtain ⟨_, m₁, hstop, hok⟩ := Job.bind_ok hok
  cases hstop
  simp only at hok
  obtain ⟨_, m₃, hclean, hok⟩ := Job.bind_ok hok
  obtain ⟨_, m₂, hpublish, -⟩ := Job.bind_ok hclean
  refine ⟨m₂, hpublish, ?_⟩
  split at hok
  · obtain ⟨_, m₄, -, hok⟩ := Job.bind_ok hok
    cases hok
    rfl
  · cases hok
    rfl

/-- What a session answers that has found nothing to test. -/
theorem finish_untested_ok {r : Outcome} (hok : (s.finish scratch .untested).on m = (.ok r, m')) :
    ∃ m₁, s.files.publish.on (stopLog.on m).2 = (.ok (), m₁) ∧
      r = s.outcomeOf .invalidTargets none := by
  unfold finish at hok
  obtain ⟨_, _, hstop, hok⟩ := Job.bind_ok hok
  cases hstop
  obtain ⟨_, _, hclean, hok⟩ := Job.bind_ok hok
  obtain ⟨_, m₁, hpublish, -⟩ := Job.bind_ok hclean
  cases hok
  exact ⟨m₁, hpublish, rfl⟩

theorem finish_failed {r : Outcome} {e : Error} :
    (s.finish scratch (.failed e)).on m ≠ (.ok r, m') := by
  intro h
  unfold finish at h
  obtain ⟨_, _, -, h⟩ := Job.bind_ok h
  obtain ⟨_, _, -, h⟩ := Job.bind_ok h
  cases h

/-- The ways out of a session once its log is closed. -/
inductive Leaves (s : Session) (scratch : Scratch) (m : Machine) :
    Except Error Outcome → Machine → Prop where
  /-- Where publishing fails, the runners' directory is still there. -/
  | unpublished {fault e : Error} {m₁ : Machine} (hpublish : s.files.publish.on m = (.error fault, m₁)) :
    Leaves s scratch m (.error e) m₁
  | closed {result : Except Error Outcome} {closing : Except Error Unit} {m₁ m₂ : Machine}
    (hpublish : s.files.publish.on m = (.ok (), m₁))
    (hclose : (closeScratch scratch).on m₁ = (closing, m₂)) : Leaves s scratch m result m₂
  | converted {r : Outcome} {m₁ m₂ : Machine} (hpublish : s.files.publish.on m = (.ok (), m₁))
    (hclose : (closeScratch scratch).on m₁ = (.ok (), m₂)) (hjunit : s.settings.junitXml = true) :
    Leaves s scratch m (.ok r) (s.junitReport.on m₂).2

/-- What is left is cleaned up, published or not. -/
theorem cleanUp_leaves {e : Error} {cleaning : Except Error Unit}
    (h : (s.cleanUp scratch).on m = (cleaning, m')) : s.Leaves scratch m (.error e) m' := by
  unfold cleanUp at h
  rw [Job.on_bind] at h
  cases hpublish : s.files.publish.on m with
  | mk result m₁ =>
    rw [hpublish] at h
    cases result with
    | error fault =>
      cases h
      exact .unpublished hpublish
    | ok u => exact .closed hpublish h

theorem finish_leaves {ending : Ending} {result : Except Error Outcome}
    (h : (s.finish scratch ending).on m = (result, m')) :
    s.Leaves scratch (stopLog.on m).2 result m' := by
  unfold finish at h
  have hstop : Job.on (liftM stopLog) m = (.ok (), (stopLog.on m).2) := rfl
  rw [Job.on_bind_ok hstop] at h
  generalize (stopLog.on m).2 = m₁ at h ⊢
  cases hclean : (s.cleanUp scratch).on m₁ with
  | mk cleaning m₂ =>
    cases ending with
    | failed e =>
      have houtcome : (outcome (s.cleanUp scratch)).on m₁ = (.ok cleaning, m₂) := by
        rw [Job.on_outcome, hclean]
      simp only at h
      rw [Job.on_bind_ok houtcome] at h
      cases h
      exact cleanUp_leaves hclean
    | untested =>
      cases cleaning with
      | error e =>
        simp only at h
        rw [Job.on_bind, hclean] at h
        cases h
        exact cleanUp_leaves hclean
      | ok u =>
        simp only at h
        rw [Job.on_bind_ok hclean] at h
        cases h
        obtain ⟨_, m₃, hpublish, hclose⟩ := Job.bind_ok hclean
        exact .closed hpublish hclose
    | tested summary =>
      cases cleaning with
      | error e =>
        simp only at h
        rw [Job.on_bind, hclean] at h
        cases h
        exact cleanUp_leaves hclean
      | ok u =>
        simp only at h
        rw [Job.on_bind_ok hclean] at h
        obtain ⟨_, m₃, hpublish, hclose⟩ := Job.bind_ok hclean
        cases hjunit : s.settings.junitXml with
        | true =>
          rw [hjunit] at h
          cases h
          exact .converted hpublish hclose hjunit
        | false =>
          rw [hjunit] at h
          cases h
          exact .closed hpublish hclose

end Regression.Session
