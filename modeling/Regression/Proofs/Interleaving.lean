import Regression.Proofs.FileSteps

namespace Regression

open Text (Bytes)

variable {cwd : Location} {p : Path} {o : Option Bytes} {m m' : Machine}

/-- What lies under a name. -/
def Shelf.at (shelf : Shelf) : Slot → Option Bytes
  | .log => shelf.log
  | .summary => shelf.summary
  | .draftLog who => (shelf.draft who).log
  | .draftSummary who => (shelf.draft who).summary

/-- An operation makes nothing of the other names. -/
theorem Shelf.step_other {shelf : Shelf} {who : Bool} {step : FileStep} {slot : Slot}
    (hslot : slot ≠ step.slot who) : (shelf.step who step).at slot = shelf.at slot := by
  cases slot with
  | log => cases step <;> first | rfl | exact absurd rfl hslot
  | summary => cases step <;> first | rfl | exact absurd rfl hslot
  | draftLog owner =>
    by_cases howner : owner = who
    · subst howner
      cases step <;> simp_all [Shelf.step, Shelf.at, Draft.step, FileStep.slot]
    · simp [Shelf.step, Shelf.at, Function.update_of_ne howner]
  | draftSummary owner =>
    by_cases howner : owner = who
    · subst howner
      cases step <;> simp_all [Shelf.step, Shelf.at, Draft.step, FileStep.slot]
    · simp [Shelf.step, Shelf.at, Function.update_of_ne howner]

theorem Shelf.step_draft (shelf : Shelf) (who : Bool) (step : FileStep) :
    (shelf.step who step).draft who = (shelf.draft who).step step := Function.update_self ..

theorem Shelf.step_draft_other {shelf : Shelf} {who other : Bool} (hother : other ≠ who)
    (step : FileStep) : (shelf.step who step).draft other = shelf.draft other :=
  Function.update_of_ne hother ..

namespace Neighbours

variable {f : Bool → LogFiles}

theorem path_ne (hf : Neighbours f) {slot other : Slot} (hne : slot ≠ other) :
    slot.path f ≠ other.path f := Path.ne_of_same (hf.apart slot other hne)

/-- No name of a session leads to what the other has of its own. -/
theorem own (hf : Neighbours f) (who : Bool) :
    ∀ own ∈ [(f who).tmpLogFile, (f who).tmpSummaryFile], ∀ p ∈ (f !who).names,
      own.same p = false := by
  have hnames : (f !who).names =
      [Slot.log, .draftLog !who, .summary, .draftSummary !who].map (Slot.path f) := by
    simp [LogFiles.names, Slot.path, hf.log (!who), hf.summary (!who)]
  have hapart : ∀ slot ∈ [Slot.draftLog who, .draftSummary who],
      ∀ other ∈ [Slot.log, .draftLog !who, .summary, .draftSummary !who], slot ≠ other := by
    cases who <;> decide
  intro own hown p hp
  have howned : own ∈ [Slot.draftLog who, .draftSummary who].map (Slot.path f) := hown
  obtain ⟨slot, hslot, rfl⟩ := List.mem_map.mp howned
  rw [hnames] at hp
  obtain ⟨other, hother, rfl⟩ := List.mem_map.mp hp
  exact hf.apart slot other (hapart slot hslot other hother)

end Neighbours

/-- A session has its log in use from when it creates it until it drops it. -/
def Draft.InUse (d : Draft) (p : Path) (m : Machine) : Prop :=
  ∀ isOpen, d.isOpen = some isOpen → ∃ text,
    d.log = some (Text.encode text) ∧ Recording p m.directory isOpen text m

/-- What a session sees of the files of both, and how its own log stands. -/
structure Sees (f : Bool → LogFiles) (shelf : Shelf) (who : Bool) (m : Machine) : Prop where
  apart : m.files.Apart m.directory (Slot.names f)
  lies : ∀ slot : Slot, m.files.Lies m.directory (slot.path f) (shelf.at slot)
  inUse : (shelf.draft who).InUse (f who).tmpLogFile m

namespace Sees

variable {f : Bool → LogFiles} {shelf : Shelf} {who other : Bool} {step : FileStep} {told : LogStep}

/-- A log stays in use where something else is touched. -/
theorem stays_inUse (hf : Neighbours f) (h : Sees f shelf who m) (slot : Slot)
    (hslot : Slot.draftLog who ≠ slot) (htouched : Touched (Slot.names f) (slot.path f) o m m')
    (hlog : m'.log = m.log) : (shelf.draft who).InUse (f who).tmpLogFile m' := by
  intro isOpen hopen
  obtain ⟨text, htext, hrecording⟩ := h.inUse isOpen hopen
  refine ⟨text, htext, ?_⟩
  rw [htouched.directory]
  exact hrecording.same hlog htouched.directory
    (htouched.others _ (Slot.path_mem f (.draftLog who)) (hf.path_ne hslot))

/-- What an operation makes of the files, and of the log of the session that does it. -/
theorem touches (hf : Neighbours f) (h : Sees f shelf who m)
    (hready : ∀ told, step = .log told → (shelf.draft who).isOpen.isSome)
    (hok : (step.run (f who)).on m = (.ok (), m')) :
    Touched (Slot.names f) ((step.slot who).path f) ((shelf.step who step).at (step.slot who)) m m' ∧
      ((shelf.draft who).step step).InUse (f who).tmpLogFile m' := by
  have hmem := Slot.path_mem f
  have hlog := hf.log who
  have hsummary := hf.summary who
  unfold FileStep.run at hok
  cases step with
  | clearLog =>
    simp only [hlog] at hok
    obtain ⟨htouched, hsame⟩ := LogFiles.clear_touches h.apart (hmem .log) hok
    exact ⟨htouched, h.stays_inUse hf .log (by simp) htouched hsame⟩
  | clearSummary =>
    simp only [hsummary] at hok
    obtain ⟨htouched, hsame⟩ := LogFiles.clear_touches h.apart (hmem .summary) hok
    exact ⟨htouched, h.stays_inUse hf .summary (by simp) htouched hsame⟩
  | create =>
    obtain ⟨htouched, hrecording⟩ := createLog_touches h.apart (hmem (.draftLog who)) hok
    rw [FileStep.slot, Shelf.at, Shelf.step_draft]
    refine ⟨htouched, fun isOpen hopen => ⟨"", rfl, ?_⟩⟩
    cases hopen
    rw [htouched.directory]
    exact hrecording
  | log told =>
    obtain ⟨isOpen, hopen⟩ := Option.isSome_iff_exists.mp (hready told rfl)
    obtain ⟨text, htext, hrecording⟩ := h.inUse isOpen hopen
    obtain ⟨htouched, hnext⟩ := hrecording.step_touches h.apart (hmem (.draftLog who)) told hok
    rw [FileStep.slot, Shelf.at, Shelf.step_draft]
    simp only [Draft.step, htext, hopen, Option.map_some, Option.getD_some, ← Text.encode_append]
    refine ⟨htouched, fun isOpen hopen => ⟨_, rfl, ?_⟩⟩
    cases hopen
    rw [htouched.directory]
    exact hnext
  | summarize text =>
    obtain ⟨files, hwritten, rfl⟩ := keep_ok hok
    obtain ⟨k, hwrote⟩ := h.apart.writeFile (hmem (.draftSummary who)) hwritten
    have htouched : Touched (Slot.names f) ((Slot.draftSummary who).path f)
        (some (Text.encode text)) m { m with files } := .wrote rfl hwrote
    rw [FileStep.slot, Shelf.at, Shelf.step_draft]
    exact ⟨htouched, h.stays_inUse hf (.draftSummary who) (by simp) htouched rfl⟩
  | copyLog =>
    simp only [hlog] at hok
    obtain ⟨htouched, hsame⟩ := LogFiles.copyOne_touches h.apart (hmem (.draftLog who))
      (hmem .log) (hf.apart (.draftLog who) .log (by simp)) (h.lies (.draftLog who)) (h.lies .log) hok
    exact ⟨htouched, h.stays_inUse hf .log (by simp) htouched hsame⟩
  | dropLog =>
    simp only [hlog] at hok
    have hother := hf.apart (.draftLog who) .log (by simp)
    obtain ⟨htouched, -⟩ := LogFiles.clear_touches h.apart (hmem (.draftLog who))
      ((LogFiles.dropOne_on hother m).symm.trans hok)
    rw [FileStep.slot, Shelf.at, Shelf.step_draft]
    refine ⟨htouched, fun isOpen hopen => ?_⟩
    cases hopen
  | copySummary =>
    simp only [hsummary] at hok
    obtain ⟨htouched, hsame⟩ := LogFiles.copyOne_touches h.apart (hmem (.draftSummary who))
      (hmem .summary) (hf.apart (.draftSummary who) .summary (by simp)) (h.lies (.draftSummary who))
      (h.lies .summary) hok
    exact ⟨htouched, h.stays_inUse hf .summary (by simp) htouched hsame⟩
  | dropSummary =>
    simp only [hsummary] at hok
    have hother := hf.apart (.draftSummary who) .summary (by simp)
    obtain ⟨htouched, hsame⟩ := LogFiles.clear_touches h.apart (hmem (.draftSummary who))
      ((LogFiles.dropOne_on hother m).symm.trans hok)
    rw [FileStep.slot, Shelf.at, Shelf.step_draft]
    exact ⟨htouched, h.stays_inUse hf (.draftSummary who) (by simp) htouched hsame⟩

/-- What a session sees after an operation of its own. -/
theorem after_own (hf : Neighbours f) (h : Sees f shelf who m)
    (hready : ∀ told, step = .log told → (shelf.draft who).isOpen.isSome)
    (hok : (step.run (f who)).on m = (.ok (), m')) :
    m'.directory = m.directory ∧ (∀ slot, slot ≠ step.slot who →
      m'.files.spot m.directory (slot.path f) = m.files.spot m.directory (slot.path f)) ∧
      Sees f (shelf.step who step) who m' := by
  obtain ⟨htouched, hinUse⟩ := h.touches hf hready hok
  have hothers : ∀ slot, slot ≠ step.slot who →
      m'.files.spot m.directory (slot.path f) = m.files.spot m.directory (slot.path f) :=
    fun slot hne => htouched.others _ (Slot.path_mem f slot) (hf.path_ne hne)
  refine ⟨htouched.directory, hothers, htouched.directory ▸ htouched.apart, fun slot => ?_, ?_⟩
  · rw [htouched.directory]
    by_cases hslot : slot = step.slot who
    · rw [hslot]
      exact htouched.here
    · rw [Shelf.step_other hslot]
      exact (h.lies slot).same (hothers slot hslot)
  · rw [Shelf.step_draft]
    exact hinUse

/-- What it sees after an operation of the other session. -/
theorem after_other {m₁ : Machine} (h : Sees f shelf who m₁) (hother : who ≠ other)
    (hsame : ∀ slot, slot ≠ step.slot other →
      m'.files.spot m₁.directory (slot.path f) = m₁.files.spot m₁.directory (slot.path f))
    (hroutes : ∀ p ∈ Slot.names f, p.origin m₁.directory = p.origin m'.directory)
    (hown : Sees f (shelf.step other step) other m') :
    Sees f (shelf.step other step) who { m₁ with files := m'.files } := by
  refine ⟨hown.apart.origin hroutes, fun slot => ?_, fun isOpen hopen => ?_⟩
  · exact (hown.lies slot).same (FileTree.spot_origin (hroutes _ (Slot.path_mem f slot)))
  · rw [Shelf.step_draft_other hother] at hopen ⊢
    obtain ⟨text, htext, hrecording⟩ := h.inUse isOpen hopen
    have hslot : Slot.draftLog who ≠ step.slot other := by
      cases step <;> simp [FileStep.slot, hother]
    exact ⟨text, htext, hrecording.same rfl rfl (hsame _ hslot)⟩

end Sees

/-- A log is told something only once it is created. -/
def Draft.Ready (d : Draft) : List FileStep → Prop
  | [] => True
  | step :: rest => (∀ told, step = .log told → d.isOpen.isSome) ∧ (d.step step).Ready rest

namespace Draft.Ready

variable {d : Draft} {front back middle : List FileStep}

theorem of_append (h : d.Ready (front ++ back)) : d.Ready front := by
  induction front generalizing d with
  | nil => trivial
  | cons step rest ih => exact ⟨h.1, ih h.2⟩

theorem writing (hmiddle : ∀ step ∈ middle, step.isWriting = true) (hopen : d.isOpen.isSome) :
    d.Ready (middle ++ FileStep.closing) := by
  induction middle generalizing d with
  | nil => exact ⟨nofun, nofun, nofun, nofun, trivial⟩
  | cons step rest ih =>
    obtain ⟨hstep, hrest⟩ := List.forall_mem_cons.mp hmiddle
    refine ⟨fun _ _ => hopen, ih hrest ?_⟩
    cases step with
    | log told => rfl
    | summarize text => exact hopen
    | _ => cases hstep

theorem course (d : Draft) (hmiddle : ∀ step ∈ middle, step.isWriting = true) :
    d.Ready (FileStep.course middle) := ⟨nofun, nofun, nofun, writing hmiddle rfl⟩

end Draft.Ready

/-- Two sessions at work on the same files. -/
structure Shared where
  files : FileTree
  machine : Bool → Machine

namespace Shared

/-- The machine that a session works on. -/
def seen (w : Shared) (who : Bool) : Machine := { w.machine who with files := w.files }

/-- One operation of one of the sessions. -/
def turn (f : Bool → LogFiles) (w : Shared) (who : Bool) (step : FileStep) : Except Error Shared :=
  match (step.run (f who)).on (w.seen who) with
  | (.ok (), m) => .ok { files := m.files, machine := Function.update w.machine who m }
  | (.error e, _) => .error e

/-- Operations of both, until one fails. -/
def run (f : Bool → LogFiles) : Shared → Schedule → Except Error Shared
  | w, [] => .ok w
  | w, (who, step) :: rest =>
    match w.turn f who step with
    | .ok w' => w'.run f rest
    | .error e => .error e

/-- Both sessions see what `shelf` says, from wherever they work. -/
structure Shows (f : Bool → LogFiles) (cwd : Location) (w : Shared) (shelf : Shelf) : Prop where
  sees : ∀ who, Sees f shelf who (w.seen who)
  routes : ∀ who, ∀ p ∈ Slot.names f, p.origin (w.machine who).directory = p.origin cwd

variable {f : Bool → LogFiles} {w w₁ w' : Shared} {shelf : Shelf} {who : Bool} {step : FileStep}
  {schedule before after : Schedule}

theorem turn_ok (hok : w.turn f who step = .ok w') : ∃ m',
    (step.run (f who)).on (w.seen who) = (.ok (), m') ∧
      w' = { files := m'.files, machine := Function.update w.machine who m' } := by
  unfold turn at hok
  split at hok
  · next m' hrun =>
    cases hok
    exact ⟨m', hrun, rfl⟩
  · cases hok

theorem run_append (h : w.run f (before ++ after) = .ok w') : ∃ w₁,
    w.run f before = .ok w₁ ∧ w₁.run f after = .ok w' := by
  induction before generalizing w with
  | nil => exact ⟨w, rfl, h⟩
  | cons turn rest ih =>
    obtain ⟨who, step⟩ := turn
    rw [List.cons_append, run] at h
    rw [run]
    split at h
    · exact ih h
    · cases h

namespace Shows

theorem lies (h : Shows f cwd w shelf) (slot : Slot) :
    w.files.Lies cwd (slot.path f) (shelf.at slot) :=
  ((h.sees true).lies slot).same
    (FileTree.spot_origin (h.routes true _ (Slot.path_mem f slot)).symm)

/-- One operation. -/
theorem turn (hf : Neighbours f) (h : Shows f cwd w shelf)
    (hready : ∀ told, step = .log told → (shelf.draft who).isOpen.isSome)
    (hok : w.turn f who step = .ok w') : Shows f cwd w' (shelf.step who step) := by
  obtain ⟨m', hrun, rfl⟩ := turn_ok hok
  obtain ⟨hdirectory, hsame, hown⟩ := (h.sees who).after_own hf hready hrun
  have hroutes : ∀ p ∈ Slot.names f, p.origin m'.directory = p.origin cwd := by
    rw [hdirectory]
    exact h.routes who
  refine ⟨fun owner => ?_, fun owner => ?_⟩
  · by_cases howner : owner = who
    · subst howner
      simpa only [seen, Function.update_self] using hown
    · have hroutes : ∀ p ∈ Slot.names f,
          p.origin (w.machine owner).directory = p.origin m'.directory :=
        fun p hp => (h.routes owner p hp).trans (hroutes p hp).symm
      simp only [seen, Function.update_of_ne howner]
      refine (h.sees owner).after_other howner (fun slot hslot => ?_) hroutes hown
      have hmem := Slot.path_mem f slot
      have hspot := hsame slot hslot
      rw [← hdirectory] at hspot
      exact ((FileTree.spot_origin (hroutes _ hmem)).trans hspot).trans
        (FileTree.spot_origin (hroutes _ hmem)).symm
  · by_cases howner : owner = who
    · subst howner
      simpa only [Function.update_self] using hroutes
    · simpa only [Function.update_of_ne howner] using h.routes owner

/-- Any operations in any order. -/
theorem run (hf : Neighbours f) (h : Shows f cwd w shelf)
    (hready : ∀ who, (shelf.draft who).Ready (schedule.of who))
    (hok : w.run f schedule = .ok w') : Shows f cwd w' (shelf.run schedule) := by
  induction schedule generalizing w shelf with
  | nil =>
    cases hok
    exact h
  | cons turn rest ih =>
    obtain ⟨who, step⟩ := turn
    rw [Shared.run] at hok
    split at hok
    · next w₁ hturn =>
      have hown := hready who
      rw [Schedule.of_cons, if_pos rfl] at hown
      refine ih (h.turn hf hown.1 hturn) (fun owner => ?_) hok
      by_cases howner : owner = who
      · rw [howner, Shelf.step_draft]
        exact hown.2
      · rw [Shelf.step_draft_other howner]
        have hrest := hready owner
        rwa [Schedule.of_cons, if_neg (Ne.symm howner)] at hrest
    · cases hok

end Shows

/-- What comes of two sessions that have done all that they do, each writing what `middle` says, where
`shelf` says what lay under their names. -/
structure Settled (f : Bool → LogFiles) (cwd : Location) (middle : Bool → List FileStep) (w : Shared)
    (shelf : Shelf) (schedule : Schedule) (w' : Shared) : Prop where
  /-- No name of a session leads to what the other has of its own. -/
  named : ∀ who, ∀ own ∈ [(f who).tmpLogFile, (f who).tmpSummaryFile], ∀ p ∈ (f !who).names,
    own.same p = false
  /-- At any time the files are what the operations so far make of them, and what a session has of its
  own comes of its own operations. -/
  between : ∀ before after, schedule = before ++ after → ∃ w₁, w.run f before = .ok w₁ ∧
    (∀ slot : Slot, w₁.files.Lies cwd (slot.path f) ((shelf.run before).at slot)) ∧
    ∀ who, (shelf.run before).draft who = (shelf.draft who).run (before.of who)
  /-- The log is the whole log of the session that was the last to copy its own. -/
  log : (∃ who, schedule.LastLog who) ∧ ∀ who, schedule.LastLog who →
    w'.files.Holds cwd (f who).logFile (FileStep.logOf (middle who))
  /-- The summary is that of the session that had the last word on it. -/
  summary : (∃ who, schedule.LastSummary (shelf.summaryOf middle) who) ∧
    ∀ who, schedule.LastSummary (shelf.summaryOf middle) who →
      w'.files.Lies cwd (f who).summaryFile (shelf.summaryOf middle who)
  /-- Log and summary are of one session, which has a summary, where it begins to publish only when
  the other has published all. -/
  agree : ∀ who before after, schedule = before ++ (who, .copyLog) :: after →
    (!who, .copySummary) ∉ after → (shelf.summaryOf middle who).isSome →
      w'.files.Holds cwd (f who).logFile (FileStep.logOf (middle who)) ∧
        w'.files.Lies cwd (f who).summaryFile (shelf.summaryOf middle who)

theorem Shows.settled {middle : Bool → List FileStep} (hf : Neighbours f) (h : Shows f cwd w shelf)
    (hcomplete : schedule.Complete middle) (hok : w.run f schedule = .ok w') :
    Settled f cwd middle w shelf schedule w' := by
  have hready : ∀ who, (shelf.draft who).Ready (schedule.of who) := by
    intro who
    rw [hcomplete.whole]
    exact .course _ (hcomplete.writing who)
  have hend := h.run hf hready hok
  have hlog : ∀ who, schedule.LastLog who →
      w'.files.Holds cwd (f who).logFile (FileStep.logOf (middle who)) := by
    intro who hlast
    have hlies := hend.lies .log
    rwa [Shelf.at, hcomplete.run_log shelf hlast, Slot.path, ← hf.log who] at hlies
  have hsummary : ∀ who, schedule.LastSummary (shelf.summaryOf middle) who →
      w'.files.Lies cwd (f who).summaryFile (shelf.summaryOf middle who) := by
    intro who hlast
    have hlies := hend.lies .summary
    rwa [Shelf.at, hcomplete.run_summary shelf hlast, Slot.path, ← hf.summary who] at hlies
  refine ⟨hf.own, ?_, ⟨hcomplete.exists_lastLog, hlog⟩,
    ⟨hcomplete.exists_lastSummary _, hsummary⟩, ?_⟩
  · rintro before after rfl
    obtain ⟨w₁, hbefore, -⟩ := run_append hok
    refine ⟨w₁, hbefore, (h.run hf (fun who => ?_) hbefore).lies, fun who => shelf.run_draft _ who⟩
    have hready := hready who
    rw [Schedule.of_append] at hready
    exact hready.of_append
  · intro who before after hs hother hsome
    obtain ⟨hlast, hlastSummary⟩ :=
      hcomplete.last_of_published (shelf.summaryOf middle) hs hother
    exact ⟨hlog who hlast, hsummary who (hlastSummary hsome)⟩

variable {middle : Bool → List FileStep} {directory : Path} {user platform : String}
  {process : Bool → Nat} {base : Path}

/-- Two processes of one user on one platform that share a directory for their logs. -/
theorem run_settles
    (hok : w.run (LogFiles.twins directory user platform process base) schedule = .ok w')
    (hprocess : process true ≠ process false) (hcomplete : schedule.Complete middle)
    (hdirectory : directory.isAbsolute = true ∨ ∀ who, (w.machine who).directory = cwd)
    (hapart : w.files.Apart cwd
      (Slot.names (LogFiles.twins directory user platform process base)))
    (hlies : ∀ slot : Slot, w.files.Lies cwd
      (slot.path (LogFiles.twins directory user platform process base)) (shelf.at slot))
    (hclosed : ∀ who, (shelf.draft who).isOpen = none) :
    Settled (LogFiles.twins directory user platform process base) cwd middle w shelf schedule w' := by
  have hroutes : ∀ who, ∀ p ∈ Slot.names (LogFiles.twins directory user platform process base),
      p.origin (w.machine who).directory = p.origin cwd :=
    fun who => LogFiles.twins_origin (hdirectory.imp id fun h => h who)
  have hshows : Shows (LogFiles.twins directory user platform process base) cwd w shelf := by
    refine ⟨fun who => ⟨hapart.origin (hroutes who), fun slot => ?_, fun isOpen hopen => ?_⟩, hroutes⟩
    · exact (hlies slot).same (FileTree.spot_origin (hroutes who _ (Slot.path_mem _ slot)))
    · rw [hclosed who] at hopen
      cases hopen
  exact hshows.settled (LogFiles.twins_neighbours hprocess) hcomplete hok

end Shared

namespace Trial

/-- Two processes at work on what lies on a machine. -/
def process (who : Bool) : Nat := if who then 1 else 2

def twins : Bool → LogFiles := LogFiles.twins ⟨"/"⟩ "u" "p" process ⟨"/"⟩

def both (m : Machine) : Shared :=
  { files := m.files, machine := fun who => { m with process := process who } }

/-- Each tells its log a line. The second has a summary only where it does not just clean. -/
def middle (clean : Bool) : Bool → List FileStep
  | true => [.log (.message "a"), .summarize "s"]
  | false => .log (.message "b") :: if clean then [] else [.summarize "t"]

/-- Both open and write their logs, and publish them in some order. -/
def schedule (clean : Bool) (published : Schedule) : Schedule :=
  FileStep.opening.flatMap (fun step => [(true, step), (false, step)]) ++
    [true, false].flatMap (fun who => (middle clean who).map (who, ·)) ++ published

/-- One after the other. -/
def inTurn : Schedule := [true, false].flatMap fun who => FileStep.closing.map (who, ·)

/-- The first copies its log before the second does, and its summary after that. -/
def crossed : Schedule :=
  (true, .copyLog) :: FileStep.closing.map (false, ·) ++ FileStep.closing.tail.map (true, ·)

/-- What earlier sessions have left on `littered`. -/
def leavings : Shelf :=
  let bytes := some (Text.encode "old")
  { draft := fun who => { log := bytes, summary := if who then none else bytes, isOpen := none }
    log := bytes
    summary := bytes }

theorem run_settles_crossed : ∃ w',
    (both (littered [])).run twins (schedule false crossed) = .ok w' ∧
      Shared.Settled twins [] (middle false) (both (littered [])) leavings (schedule false crossed)
        w' := by
  have hapart : (littered []).files.Apart [] (Slot.names twins) :=
    FileTree.apart_of_areApart (FileTree.sound_of_isSound (by decide +kernel)) (by decide +kernel)
  have hleft : ∀ slot ∈ Slot.all,
      (littered []).files.under [] (slot.path twins) = leavings.at slot := by decide +kernel
  have hok : ((both (littered [])).run twins (schedule false crossed)).isOk = true := by
    decide +kernel
  cases hrun : (both (littered [])).run twins (schedule false crossed) with
  | error e =>
    rw [hrun] at hok
    cases hok
  | ok w' =>
    refine ⟨w', rfl, Shared.run_settles hrun (by decide) ⟨by decide, by decide⟩ (.inl (by decide))
      hapart (fun slot => ?_) fun _ => rfl⟩
    rw [← hleft slot slot.mem_all]
    exact hapart.lies (Slot.path_mem twins slot)

/-- Both sessions have published all that they have, and log and summary are those of neither. -/
def Torn (clean : Bool) (published : Schedule) : Prop :=
  (schedule clean published).Complete (middle clean) ∧
    ∃ w', (both (machine [])).run twins (schedule clean published) = .ok w' ∧
      ¬∃ who, w'.files.Holds [] (twins who).logFile (FileStep.logOf (middle clean who)) ∧
        w'.files.Lies [] (twins who).summaryFile (FileStep.summaryOf none (middle clean who))

theorem Torn.of_under {clean : Bool} {published : Schedule}
    (hcomplete : (schedule clean published).Complete (middle clean))
    (hends : ((both (machine [])).run twins (schedule clean published)).toOption.any fun w' =>
      [true, false].all fun who =>
        w'.files.under [] (twins who).logFile != some (FileStep.logOf (middle clean who)) ||
          w'.files.under [] (twins who).summaryFile !=
            FileStep.summaryOf none (middle clean who)) : Torn clean published := by
  refine ⟨hcomplete, ?_⟩
  cases hrun : (both (machine [])).run twins (schedule clean published) with
  | error e =>
    rw [hrun] at hends
    cases hends
  | ok w' =>
    rw [hrun] at hends
    refine ⟨w', rfl, ?_⟩
    rintro ⟨who, hlog, hsummary⟩
    have hwho := List.all_eq_true.mp hends who (by cases who <;> simp)
    have hlies : w'.files.Lies [] (twins who).logFile (some (FileStep.logOf (middle clean who))) := hlog
    simp [hlies.under, hsummary.under] at hwho

/-- A session without a summary leaves that of the other beside its log, and each of two that publish
at once may leave one half. -/
theorem torn_publication : Torn true inTurn ∧ Torn false crossed :=
  ⟨.of_under ⟨by decide, by decide⟩ (by decide +kernel),
    .of_under ⟨by decide, by decide⟩ (by decide +kernel)⟩

end Trial

end Regression
