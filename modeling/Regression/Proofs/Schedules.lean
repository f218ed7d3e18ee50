import Mathlib.Data.List.Nodup
import Regression.Proofs.Recording

namespace Regression

open Text (Bytes)

/-- One operation of a session on the files that its log and its summary are kept in. No other comes
between what it does. -/
inductive FileStep where
  | clearLog
  | clearSummary
  | create
  | log (step : LogStep)
  | summarize (text : String)
  | copyLog
  | dropLog
  | copySummary
  | dropSummary
  deriving DecidableEq, Repr

namespace FileStep

/-- What a session writes between the creation of its log and its publication. -/
def isWriting : FileStep → Bool
  | log _ => true
  | summarize _ => true
  | _ => false

def opening : List FileStep := [clearLog, clearSummary, create]

def closing : List FileStep := [copyLog, dropLog, copySummary, dropSummary]

/-- All that a session does with its files. -/
def course (middle : List FileStep) : List FileStep := opening ++ middle ++ closing

/-- What is done with the log. -/
def logSteps : List FileStep → List LogStep
  | [] => []
  | log step :: rest => step :: logSteps rest
  | _ :: rest => logSteps rest

/-- The whole log. -/
def logOf (middle : List FileStep) : Bytes :=
  Text.encode (written (LogStep.kept true (logSteps middle)))

/-- The summary that is there once all is written, where there was `old` before. -/
def summaryOf (old : Option Bytes) : List FileStep → Option Bytes
  | [] => old
  | summarize text :: rest => summaryOf (some (Text.encode text)) rest
  | _ :: rest => summaryOf old rest

/-- What is told while the log is closed is in no file, and the last summary is the one that counts. -/
example : logOf [log (.message "a "), log .stop, log (.message "b"), summarize "c", log .restart,
      summarize "d"] = Text.encode "a\n" ∧
    summaryOf none [log (.message "a "), summarize "c", log .restart, summarize "d"] =
      some (Text.encode "d") := by decide

end FileStep

/-- What a session has under the names of its process, and whether its log is open. -/
structure Draft where
  log : Option Bytes
  summary : Option Bytes
  isOpen : Option Bool

def Draft.step (d : Draft) : FileStep → Draft
  | .create => { d with log := some [], isOpen := some true }
  | .log step =>
    let isOpen := d.isOpen.getD false
    { d with
      log := d.log.map (· ++ Text.encode (written (step.adds isOpen)))
      isOpen := some (step.leavesOpen isOpen) }
  | .summarize text => { d with summary := some (Text.encode text) }
  | .dropLog => { d with log := none, isOpen := none }
  | .dropSummary => { d with summary := none }
  | _ => d

def Draft.run (d : Draft) (steps : List FileStep) : Draft := steps.foldl Draft.step d

/-- What two sessions have under all their names. -/
structure Shelf where
  draft : Bool → Draft
  log : Option Bytes
  summary : Option Bytes

/-- A session reads and writes its own draft and what is published. -/
def Shelf.step (shelf : Shelf) (who : Bool) (step : FileStep) : Shelf :=
  { draft := Function.update shelf.draft who ((shelf.draft who).step step)
    log := match step with
      | .clearLog => none
      | .copyLog => (shelf.draft who).log.or shelf.log
      | _ => shelf.log
    summary := match step with
      | .clearSummary => none
      | .copySummary => (shelf.draft who).summary.or shelf.summary
      | _ => shelf.summary }

/-- The operations of two sessions in the order in which they come. -/
abbrev Schedule := List (Bool × FileStep)

def Shelf.run (shelf : Shelf) (schedule : Schedule) : Shelf :=
  schedule.foldl (fun shelf turn => shelf.step turn.1 turn.2) shelf

/-- The operations of one of the sessions. -/
def Schedule.of (schedule : Schedule) (who : Bool) : List FileStep :=
  schedule.filterMap fun turn => if turn.1 = who then some turn.2 else none

namespace Schedule

variable {schedule before after : Schedule} {who : Bool} {step : FileStep}
  {front back : List FileStep}

theorem of_append (before after : Schedule) (who : Bool) :
    (before ++ after).of who = before.of who ++ after.of who := List.filterMap_append

theorem of_cons (turn : Bool × FileStep) (rest : Schedule) (who : Bool) :
    Schedule.of (turn :: rest) who =
      if turn.1 = who then turn.2 :: rest.of who else rest.of who := by
  unfold Schedule.of
  rw [List.filterMap_cons]
  split <;> simp_all

theorem mem_of : step ∈ schedule.of who ↔ (who, step) ∈ schedule := by
  simp only [Schedule.of, List.mem_filterMap]
  constructor
  · rintro ⟨⟨who', step'⟩, hmem, hturn⟩
    split at hturn <;> simp_all
  · intro hmem
    exact ⟨(who, step), hmem, by simp⟩

/-- An operation that a session does once parts what it does before from what it does after. -/
theorem of_split (hwhole : schedule.of who = front ++ step :: back) (hfront : step ∉ front)
    (hback : step ∉ back) (hs : schedule = before ++ (who, step) :: after) :
    before.of who = front ∧ after.of who = back := by
  rw [hs, of_append, of_cons, if_pos rfl] at hwhole
  obtain ⟨hbefore, -, hafter⟩ := (List.append_cons_inj_of_notMem hfront hback).mp hwhole.symm
  exact ⟨hbefore.symm, hafter.symm⟩

/-- The last turn with some property. -/
theorem exists_last {P : Bool × FileStep → Prop} (h : ∃ turn ∈ schedule, P turn) :
    ∃ before turn after, schedule = before ++ turn :: after ∧ P turn ∧ ∀ later ∈ after, ¬P later := by
  induction schedule with
  | nil =>
    obtain ⟨_, hmem, -⟩ := h
    cases hmem
  | cons turn rest ih =>
    by_cases hlater : ∃ later ∈ rest, P later
    · obtain ⟨before, last, after, rfl, hlast, hafter⟩ := ih hlater
      exact ⟨turn :: before, last, after, rfl, hlast, hafter⟩
    · obtain ⟨last, hmem, hlast⟩ := h
      rcases List.mem_cons.mp hmem with rfl | hmem
      · exact ⟨[], last, rest, rfl, hlast, fun later hmem hP => hlater ⟨later, hmem, hP⟩⟩
      · exact absurd ⟨last, hmem, hlast⟩ hlater

end Schedule

namespace Draft

variable {d : Draft} {middle : List FileStep}

theorem run_append (d : Draft) (steps steps' : List FileStep) :
    d.run (steps ++ steps') = (d.run steps).run steps' := List.foldl_append

/-- What a session has after it has written, where its log held `bytes` and was open or closed. -/
theorem run_writing (hmiddle : ∀ step ∈ middle, step.isWriting = true) {bytes : Bytes}
    {isOpen : Bool} (hlog : d.log = some bytes) (hopen : d.isOpen = some isOpen) :
    (d.run middle).log =
        some (bytes ++ Text.encode (written (LogStep.kept isOpen (FileStep.logSteps middle)))) ∧
      (d.run middle).summary = FileStep.summaryOf d.summary middle := by
  induction middle generalizing d bytes isOpen with
  | nil => exact ⟨by simp [run, hlog, FileStep.logSteps, LogStep.kept, written, Text.encode], rfl⟩
  | cons step rest ih =>
    obtain ⟨hstep, hrest⟩ := List.forall_mem_cons.mp hmiddle
    cases step with
    | log step =>
      have hlog : (d.step (.log step)).log =
          some (bytes ++ Text.encode (written (step.adds isOpen))) := by
        simp [Draft.step, hlog, hopen]
      have hopen : (d.step (.log step)).isOpen = some (step.leavesOpen isOpen) := by
        simp [Draft.step, hopen]
      have hnext := ih hrest hlog hopen
      rw [List.append_assoc, ← Text.encode_append, ← written_append] at hnext
      exact hnext
    | summarize text => exact ih (d := d.step (.summarize text)) hrest hlog hopen
    | _ => cases hstep

/-- When a session publishes its log it has all of it. -/
theorem run_opening (hmiddle : ∀ step ∈ middle, step.isWriting = true) :
    (d.run (FileStep.opening ++ middle)).log = some (FileStep.logOf middle) ∧
      (d.run (FileStep.opening ++ middle)).summary = FileStep.summaryOf d.summary middle := by
  rw [run_append]
  exact run_writing (d := d.run FileStep.opening) hmiddle rfl rfl

end Draft

namespace Shelf

variable {shelf : Shelf} {who : Bool}

theorem run_append (shelf : Shelf) (before after : Schedule) :
    shelf.run (before ++ after) = (shelf.run before).run after := List.foldl_append

theorem run_cons (shelf : Shelf) (turn : Bool × FileStep) (rest : Schedule) :
    shelf.run (turn :: rest) = (shelf.step turn.1 turn.2).run rest := rfl

/-- What a session has of its own comes of its own operations. -/
theorem run_draft (shelf : Shelf) (schedule : Schedule) (who : Bool) :
    (shelf.run schedule).draft who = (shelf.draft who).run (schedule.of who) := by
  induction schedule generalizing shelf with
  | nil => rfl
  | cons turn rest ih =>
    rw [run_cons, ih, Schedule.of_cons]
    by_cases hturn : turn.1 = who
    · rw [if_pos hturn, ← hturn]
      simp [step, Draft.run]
    · rw [if_neg hturn]
      simp [step, Function.update_of_ne (Ne.symm hturn)]

end Shelf

/-- The summary that a session has in the end, where it writes what `middle` says. -/
def Shelf.summaryOf (shelf : Shelf) (middle : Bool → List FileStep) (who : Bool) : Option Bytes :=
  FileStep.summaryOf (shelf.draft who).summary (middle who)

/-- Both sessions have done all that they do. -/
structure Schedule.Complete (schedule : Schedule) (middle : Bool → List FileStep) : Prop where
  whole : ∀ who, schedule.of who = FileStep.course (middle who)
  writing : ∀ who, ∀ step ∈ middle who, step.isWriting = true

/-- A session is the last that copies its log. -/
def Schedule.LastLog (schedule : Schedule) (who : Bool) : Prop :=
  ∃ before after, schedule = before ++ (who, .copyLog) :: after ∧
    ∀ other, (other, .copyLog) ∉ after

/-- A session has the last word on the summary: no summary is cleared or published after it has
published its own, or, where it has none, after it has cleared what was there. -/
def Schedule.LastSummary (schedule : Schedule) (summaries : Bool → Option Bytes) (who : Bool) : Prop :=
  ∃ before after, schedule = before ++
      (who, if (summaries who).isSome then .copySummary else .clearSummary) :: after ∧
    ∀ other, (other, .clearSummary) ∉ after ∧
      ((summaries other).isSome → (other, .copySummary) ∉ after)

namespace Schedule.Complete

variable {schedule before after : Schedule} {who : Bool} {middle : Bool → List FileStep}
  {shelf : Shelf}

/-- What is not written between them is done once: it opens or closes the course. -/
theorem once (h : schedule.Complete middle) {step : FileStep} (hstep : step.isWriting = false)
    {front back : List FileStep} (hcourse : FileStep.course (middle who) = front ++ step :: back) :
    step ∉ front ∧ step ∉ back := by
  have hmiddle : step ∉ middle who := by
    intro hmem
    rw [h.writing who step hmem] at hstep
    cases hstep
  have hends : (FileStep.opening ++ FileStep.closing).count step ≤ 1 :=
    List.nodup_iff_count_le_one.mp (by decide) step
  have hcount := congrArg (List.count step) hcourse
  simp only [FileStep.course, List.count_append, List.count_cons_self,
    List.count_eq_zero.mpr hmiddle] at hcount hends
  exact ⟨List.count_eq_zero.mp (by omega), List.count_eq_zero.mp (by omega)⟩

/-- What a session does before such an operation and after it. -/
theorem around (h : schedule.Complete middle) {step : FileStep} (hstep : step.isWriting = false)
    {front back : List FileStep} (hcourse : FileStep.course (middle who) = front ++ step :: back)
    (hs : schedule = before ++ (who, step) :: after) :
    before.of who = front ∧ after.of who = back :=
  of_split ((h.whole who).trans hcourse) (h.once hstep hcourse).1 (h.once hstep hcourse).2 hs

theorem around_copyLog (h : schedule.Complete middle)
    (hs : schedule = before ++ (who, .copyLog) :: after) :
    before.of who = FileStep.opening ++ middle who ∧
      after.of who = [.dropLog, .copySummary, .dropSummary] := h.around rfl rfl hs

theorem around_copySummary (h : schedule.Complete middle)
    (hs : schedule = before ++ (who, .copySummary) :: after) :
    before.of who = FileStep.opening ++ middle who ++ [.copyLog, .dropLog] ∧
      after.of who = [.dropSummary] :=
  h.around rfl (by simp [FileStep.course, FileStep.closing]) hs

/-- A session that has cleared the log is still to copy its own. -/
theorem copyLog_after (h : schedule.Complete middle)
    (hs : schedule = before ++ (who, .clearLog) :: after) : (who, .copyLog) ∈ after := by
  have hcourse : FileStep.course (middle who) = [] ++ .clearLog ::
      ([.clearSummary, .create] ++ middle who ++ FileStep.closing) := rfl
  rw [← mem_of, (h.around rfl hcourse hs).2]
  simp [FileStep.closing]

theorem copySummary_after (h : schedule.Complete middle) {step : FileStep}
    (hstep : step = .clearSummary ∨ step = .copyLog)
    (hs : schedule = before ++ (who, step) :: after) : (who, .copySummary) ∈ after := by
  rw [← mem_of]
  rcases hstep with rfl | rfl
  · have hcourse : FileStep.course (middle who) = [.clearLog] ++ .clearSummary ::
        ([.create] ++ middle who ++ FileStep.closing) := rfl
    rw [(h.around rfl hcourse hs).2]
    simp [FileStep.closing]
  · rw [(h.around_copyLog hs).2]
    decide

/-- What a session copies as its log is all of it. -/
theorem draft_log (h : schedule.Complete middle) (shelf : Shelf)
    (hs : schedule = before ++ (who, .copyLog) :: after) :
    ((shelf.run before).draft who).log = some (FileStep.logOf (middle who)) := by
  rw [Shelf.run_draft, (h.around_copyLog hs).1]
  exact (Draft.run_opening (h.writing who)).1

/-- What a session copies as its summary is the last that it has written. -/
theorem draft_summary (h : schedule.Complete middle) (shelf : Shelf)
    (hs : schedule = before ++ (who, .copySummary) :: after) :
    ((shelf.run before).draft who).summary = shelf.summaryOf middle who := by
  rw [Shelf.run_draft, (h.around_copySummary hs).1, Draft.run_append]
  exact (Draft.run_opening (h.writing who)).2

/-- The shared log stays as it is where nobody clears or copies one. -/
theorem run_log_same {shelf : Shelf} (hclear : ∀ who, (who, FileStep.clearLog) ∉ after)
    (hcopy : ∀ who, (who, FileStep.copyLog) ∉ after) : (shelf.run after).log = shelf.log := by
  induction after generalizing shelf with
  | nil => rfl
  | cons turn rest ih =>
    obtain ⟨who, step⟩ := turn
    simp only [List.mem_cons, not_or] at hclear hcopy
    rw [Shelf.run_cons, ih (fun who => (hclear who).2) fun who => (hcopy who).2]
    cases step with
    | clearLog => exact absurd rfl (hclear who).1
    | copyLog => exact absurd rfl (hcopy who).1
    | _ => rfl

/-- The shared summary stays as it is where nobody clears it, and nobody that has one copies it. -/
theorem run_summary_same (h : schedule.Complete middle) (hs : schedule = before ++ after)
    (hclear : ∀ who, (who, FileStep.clearSummary) ∉ after)
    (hcopy : ∀ who, (who, FileStep.copySummary) ∈ after → shelf.summaryOf middle who = none) :
    (shelf.run schedule).summary = (shelf.run before).summary := by
  induction after generalizing before with
  | nil => rw [hs, List.append_nil]
  | cons turn rest ih =>
    obtain ⟨who, step⟩ := turn
    simp only [List.mem_cons, not_or] at hclear hcopy
    have hrest : schedule = (before ++ [(who, step)]) ++ rest := by simp [hs]
    rw [ih hrest (fun who => (hclear who).2) fun who hmem => hcopy who (.inr hmem),
      Shelf.run_append, Shelf.run_cons]
    cases step with
    | clearSummary => exact absurd rfl (hclear who).1
    | copySummary =>
      have hnone := h.draft_summary shelf hs
      rw [hcopy who (.inl rfl)] at hnone
      change ((shelf.run before).draft who).summary.or (shelf.run before).summary = _
      rw [hnone, Option.none_or]
    | _ => rfl

theorem run_log (h : schedule.Complete middle) (shelf : Shelf) (hlast : schedule.LastLog who) :
    (shelf.run schedule).log = some (FileStep.logOf (middle who)) := by
  obtain ⟨before, after, hs, hcopy⟩ := hlast
  have hclear : ∀ other, (other, FileStep.clearLog) ∉ after := by
    intro other hmem
    obtain ⟨u, v, rfl⟩ := List.append_of_mem hmem
    have hsplit : schedule = (before ++ (who, .copyLog) :: u) ++ (other, .clearLog) :: v := by
      simp [hs]
    exact hcopy other (by simp [h.copyLog_after hsplit])
  have hcopied := h.draft_log shelf hs
  rw [hs, Shelf.run_append, Shelf.run_cons, run_log_same hclear hcopy]
  change ((shelf.run before).draft who).log.or (shelf.run before).log = _
  rw [hcopied, Option.some_or]

theorem run_summary (h : schedule.Complete middle) (shelf : Shelf)
    (hlast : schedule.LastSummary (shelf.summaryOf middle) who) :
    (shelf.run schedule).summary = shelf.summaryOf middle who := by
  obtain ⟨before, after, hs, hrest⟩ := hlast
  have hsilent : ∀ other, (other, FileStep.copySummary) ∈ after →
      shelf.summaryOf middle other = none := by
    intro other hmem
    by_contra hne
    exact (hrest other).2 (Option.isSome_iff_ne_none.mpr hne) hmem
  rw [h.run_summary_same (hs.trans (List.append_cons ..)) (fun other => (hrest other).1) hsilent,
    Shelf.run_append]
  cases hsome : shelf.summaryOf middle who with
  | none => rfl
  | some bytes =>
    rw [hsome] at hs
    have hcopied := h.draft_summary shelf hs
    rw [hsome] at hcopied
    change ((shelf.run before).draft who).summary.or (shelf.run before).summary = _
    rw [hcopied, Option.some_or]

theorem exists_lastLog (h : schedule.Complete middle) : ∃ who, schedule.LastLog who := by
  have hmem : (true, FileStep.copyLog) ∈ schedule := by
    rw [← mem_of, h.whole]
    simp [FileStep.course, FileStep.closing]
  obtain ⟨before, ⟨who, step⟩, after, hs, rfl, hafter⟩ :=
    exists_last (P := fun turn => turn.2 = FileStep.copyLog) ⟨_, hmem, rfl⟩
  exact ⟨who, before, after, hs, fun other hmem => hafter _ hmem rfl⟩

theorem exists_lastSummary (h : schedule.Complete middle) (summaries : Bool → Option Bytes) :
    ∃ who, schedule.LastSummary summaries who := by
  have hmem : (true, FileStep.clearSummary) ∈ schedule := by
    rw [← mem_of, h.whole]
    simp [FileStep.course, FileStep.opening]
  obtain ⟨before, ⟨who, step⟩, after, hs, hstep, hafter⟩ :=
    exists_last (P := fun turn => turn.2 = FileStep.clearSummary ∨
      turn.2 = FileStep.copySummary ∧ (summaries turn.1).isSome) ⟨_, hmem, .inl rfl⟩
  have hrest : ∀ other, (other, FileStep.clearSummary) ∉ after ∧
      ((summaries other).isSome → (other, FileStep.copySummary) ∉ after) :=
    fun other => ⟨fun hmem => hafter _ hmem (.inl rfl),
      fun hsome hmem => hafter _ hmem (.inr ⟨rfl, hsome⟩)⟩
  refine ⟨who, before, after, ?_, hrest⟩
  rcases hstep with rfl | ⟨rfl, hsome⟩
  · have hnone : ¬(summaries who).isSome = true := fun hsome =>
      (hrest who).2 hsome (h.copySummary_after (.inl rfl) hs)
    rw [if_neg hnone]
    exact hs
  · rw [if_pos hsome]
    exact hs

/-- A session that copies its log when the other has published all has the last word, on the summary
too where it has one. -/
theorem last_of_published (h : schedule.Complete middle) (summaries : Bool → Option Bytes)
    (hs : schedule = before ++ (who, .copyLog) :: after)
    (hother : (!who, FileStep.copySummary) ∉ after) :
    schedule.LastLog who ∧
      ((summaries who).isSome → schedule.LastSummary summaries who) := by
  -- What the other session does after that clears and copies no more.
  have hlater : ∀ step u v, step = .clearSummary ∨ step = .copyLog →
      after ≠ u ++ (!who, step) :: v := by
    rintro step u v hstep rfl
    have hsplit : schedule = (before ++ (who, .copyLog) :: u) ++ (!who, step) :: v := by simp [hs]
    exact hother (by simp [h.copySummary_after hstep hsplit])
  have hown := (h.around_copyLog hs).2
  refine ⟨⟨before, after, hs, fun other hmem => ?_⟩, fun hsome => ?_⟩
  · by_cases heq : other = who
    · rw [heq, ← mem_of, hown] at hmem
      revert hmem
      decide
    · obtain ⟨u, v, hafter⟩ := List.append_of_mem hmem
      rw [Bool.eq_not_of_ne heq] at hafter
      exact hlater _ u v (.inr rfl) hafter
  · have hmem : (who, FileStep.copySummary) ∈ after := by
      rw [← mem_of, hown]
      decide
    obtain ⟨u, v, rfl⟩ := List.append_of_mem hmem
    have hsplit : schedule = (before ++ (who, .copyLog) :: u) ++ (who, .copySummary) :: v := by
      simp [hs]
    have hlast := (h.around_copySummary hsplit).2
    refine ⟨_, v, by rw [if_pos hsome]; exact hsplit, fun other => ?_⟩
    by_cases heq : other = who
    · rw [heq, ← mem_of, ← mem_of, hlast]
      exact ⟨by decide, fun _ => by decide⟩
    · rw [Bool.eq_not_of_ne heq]
      refine ⟨fun hmem => ?_, fun _ hmem => hother (by simp [hmem])⟩
      obtain ⟨x, y, rfl⟩ := List.append_of_mem hmem
      exact hlater .clearSummary (u ++ (who, .copySummary) :: x) y (.inl rfl) (by simp)

end Schedule.Complete

end Regression
