import Regression.Graphs
import Regression.Proofs.Forwarding
import Regression.Proofs.Tools
import Regression.Proofs.Visits

namespace Regression

namespace Commit

/-- What is made before anything is told. -/
def prepare (c : Context) (d : Path) (commit : Option String) : Job Unit := do
  makeDirectories d
  writeText (c.tmpDirectory / "sha.perf_keys") "sha "
  writeText (c.tmpDirectory / "sha.exec.out.tmp") ((commit.map fun c => "sha " ++ c).getD "")

def helper (c : Context) (d : Path) : Command :=
  { program := (c.testUtil "computePerfStats").text
    arguments := ["perfSha", d.text, (c.tmpDirectory / "sha.perf_keys").text,
      (c.tmpDirectory / "sha.exec.out.tmp").text]
    environment := c.scope none }

def saving (d : Path) : String :=
  "[Saving current git sha to " ++ (d / "perfSha.dat").text ++ "]"

def failed (d : Path) : String :=
  "[Error: Failed to save current sha to " ++ (d / "perfSha.dat").text ++ "]"

/-- What is left to do once all is prepared and said to be saved. -/
def ask (c : Context) (d : Path) : Job Unit := do
  let result ← attempt (helper c d).capture
  note (result.getD (failed d))

/-- What the helper prints on a machine, where it ends well. -/
def printed (c : Context) (d : Path) (m : Machine) : Option String :=
  Command.printed (m.tools m.commands (helper c d) m.directory m.files)

/-- What is told of a helper. -/
def report (d : Path) (printed : Option String) : String :=
  (printed.map Text.trimEnd).getD (failed d)

end Commit

open Commit

theorem recordCommit_eq (c : Context) (d : Path) (commit : Option String) :
    recordCommit c d commit =
      (prepare c d commit >>= fun _ => note (saving d) >>= fun _ => ask c d) := by
  simp only [recordCommit, prepare, ask, bind_assoc]
  refine bind_congr fun _ => bind_congr fun _ => bind_congr fun _ => bind_congr fun _ =>
    bind_congr fun result => ?_
  cases result <;> rfl

/-- How steps end that change files only. -/
structure Edited (m : Machine) (r : Except Error Unit × Machine) : Prop where
  failure : ∀ e, r.1 = .error e → ∃ fault, e = .system fault
  rest : ∃ files changes, r.2 = { m with files, changes }

theorem Edited.edit (change : FileTree → Location → Except Fault FileTree) (m : Machine) :
    Edited m ((edit change).on m) := by
  rw [Regression.edit, editOr_on]
  cases change m.files m.directory with
  | error fault => exact ⟨fun e he => ⟨fault, (Except.error.inj he).symm⟩, m.files, m.changes, rfl⟩
  | ok files => exact ⟨nofun, files, _, rfl⟩

theorem Edited.bind {j : Job Unit} {f : Unit → Job Unit} {m : Machine} (hj : Edited m (j.on m))
    (hf : ∀ m', Edited m' ((f ()).on m')) : Edited m ((j >>= f).on m) := by
  rw [Job.on_bind]
  cases hon : j.on m with
  | mk result m' =>
    rw [hon] at hj
    obtain ⟨files, changes, rfl⟩ := hj.rest
    cases result with
    | error e => exact ⟨hj.failure, files, changes, rfl⟩
    | ok _ =>
      obtain ⟨hfailure, files', changes', hrest⟩ := hf { m with files, changes }
      exact ⟨hfailure, files', changes', hrest⟩

variable {c : Context} {d : Path} {commit : Option String} {m m' : Machine}

theorem prepare_edited (m : Machine) : Edited m ((prepare c d commit).on m) :=
  (Edited.edit _ m).bind fun m' => (Edited.edit _ m').bind fun m'' => Edited.edit _ m''

theorem trimEnd_report (printed : Option String) :
    Text.trimEnd (printed.getD (failed d)) = report d printed := by
  cases printed with
  | some output => rfl
  | none => exact Text.trimEnd_seen (t := "]") (c := ']') (by decide) (by decide) _

theorem trimEnd_saving : Text.trimEnd (saving d) = saving d :=
  Text.trimEnd_seen (t := "]") (c := ']') (by decide) (by decide) _

theorem saving_ne_failed : saving d ≠ failed d := by
  intro h
  have hsaving := Text.startsWith_self "[Saving current git sha to " ((d / "perfSha.dat").text ++ "]")
  have hfailed : Text.startsWith ("[Error: Failed to save current sha to " ++
      ((d / "perfSha.dat").text ++ "]")) "[Saving current git sha to " = false :=
    Text.startsWith_append_false (by decide) (by decide)
  rw [← String.append_assoc] at hsaving hfailed
  have hsame : Text.startsWith (saving d) "[Saving current git sha to " =
      Text.startsWith (failed d) "[Saving current git sha to " := congrArg (Text.startsWith · _) h
  exact Bool.false_ne_true (hfailed.symm.trans (hsame.symm.trans hsaving))

/-- A tool that is only listened to tells nothing itself. -/
theorem attempt_capture_untold (helper : Command) (m : Machine) :
    ((attempt helper.capture).on m).2.notes = m.notes ∧
      ((attempt helper.capture).on m).2.log = m.log := by
  rw [Command.attempt_capture_on, Command.start_on]
  cases m.tools m.commands helper m.directory m.files <;> exact ⟨rfl, rfl⟩

theorem ask_on (c : Context) (d : Path) (m : Machine) : (ask c d).on m =
    (note ((printed c d m).getD (failed d))).on ((attempt (helper c d).capture).on m).2 := by
  have hanswer : ((attempt (helper c d).capture).on m).1 = printed c d m := by
    rw [Command.attempt_capture_on]
    rfl
  rw [← hanswer]
  rfl

theorem ask_ok (h : (ask c d).on m = (.ok (), m')) :
    m'.notes = report d (printed c d m) :: m.notes ∧ m'.started = m.started ++ [helper c d] := by
  rw [ask_on] at h
  obtain ⟨_, _, _, rfl⟩ := note_ok h
  refine ⟨?_, Command.attempt_capture_started (helper c d) m⟩
  simp only [trimEnd_report, (attempt_capture_untold (helper c d) m).1]

theorem note_logWrite {text : String} {e : Error} (h : (note text).on m = (.error e, m')) :
    ∃ file fault, e = .logWrite file fault :=
  (Relays.note text m).failure e (by rw [h])

/-- How an attempt to record a commit ends. -/
structure Commit.Recorded (c : Context) (d : Path) (commit : Option String) (m : Machine) : Prop where
  /-- What cannot be prepared ends the attempt, and nothing is told or started. -/
  unprepared : ∀ e m', (prepare c d commit).on m = (.error e, m') →
    (recordCommit c d commit).on m = (.error e, m') ∧ (∃ fault, e = .system fault) ∧
      m'.notes = m.notes ∧ m'.started = m.started
  /-- After that only a log that cannot be written is an error. -/
  failure : ∀ m₀ m' e, (prepare c d commit).on m = (.ok (), m₀) →
    (recordCommit c d commit).on m = (.error e, m') → ∃ file fault, e = .logWrite file fault
  /-- The helper is asked once, and what it printed is told, or else, in one message, that it
  failed. -/
  told : ∀ m₀ m', (prepare c d commit).on m = (.ok (), m₀) →
    (recordCommit c d commit).on m = (.ok (), m') →
    ∃ m₁, (note (saving d)).on m₀ = (.ok (), m₁) ∧
      m'.notes = report d (printed c d m₁) :: saving d :: m.notes ∧
      m'.started = m.started ++ [helper c d] ∧
      (printed c d m₁ = none → m'.notes.count (failed d) = m.notes.count (failed d) + 1)
  memory : ∀ m₀ kept, (prepare c d commit).on m = (.ok (), m₀) → m.log = .memory kept →
    ((recordCommit c d commit).on m).1 = .ok ()

/-- A helper that fails is told of and is no error; a file that cannot be made for it is one. -/
theorem recordCommit_recorded (c : Context) (d : Path) (commit : Option String) (m : Machine) :
    Recorded c d commit m := by
  have hedited := @prepare_edited c d commit m
  constructor
  · intro e m' hprepare
    rw [hprepare] at hedited
    obtain ⟨files, changes, rfl⟩ := hedited.rest
    refine ⟨?_, hedited.failure e rfl, rfl, rfl⟩
    rw [recordCommit_eq, Job.on_bind, hprepare]
  · intro m₀ m' e hprepare hon
    rw [recordCommit_eq, Job.on_bind_ok hprepare, Job.on_bind] at hon
    cases hsaving : (note (saving d)).on m₀ with
    | mk result m₁ =>
      rw [hsaving] at hon
      cases result with
      | error e' =>
        cases hon
        exact note_logWrite hsaving
      | ok _ => exact note_logWrite ((ask_on c d m₁).symm.trans hon)
  · intro m₀ m' hprepare hon
    rw [recordCommit_eq, Job.on_bind_ok hprepare] at hon
    obtain ⟨_, m₁, hsaving, hask⟩ := Job.bind_ok hon
    obtain ⟨hnotes, hstarted⟩ := ask_ok hask
    rw [hprepare] at hedited
    obtain ⟨files, changes, rfl⟩ := hedited.rest
    obtain ⟨files₁, log, console, hnote⟩ := note_ok hsaving
    have hsaved : m₁.notes = saving d :: m.notes := by rw [hnote, trimEnd_saving]
    have hbefore : m₁.started = m.started := by rw [hnote]; rfl
    rw [hsaved] at hnotes
    refine ⟨m₁, hsaving, hnotes, hbefore ▸ hstarted, fun hnone => ?_⟩
    have hfailed : report d none = failed d := rfl
    rw [hnotes, hnone, hfailed, List.count_cons_self, List.count_cons_of_ne saving_ne_failed]
  · intro m₀ kept hprepare hlog
    rw [hprepare] at hedited
    obtain ⟨files, changes, hm₀⟩ := hedited.rest
    have hlog₀ : m₀.log = .memory kept := (congrArg Machine.log hm₀).trans hlog
    have hsaving := note_on_memory hlog₀ (saving d)
    rw [recordCommit_eq, Job.on_bind_ok hprepare, Job.on_bind_ok hsaving, ask_on]
    exact congrArg Prod.fst (note_on_memory (attempt_capture_untold (helper c d) _).2 _)

namespace Grove

/-- Where the directory of the data is a file, an error ends the attempt although the log takes every
message. -/
theorem recordCommit_stops : machine.log.TakesAll machine.files ∧
    ((recordCommit context ⟨"/t/a.chpl"⟩ none).on machine).1 = .error (.system .alreadyThere) ∧
    ((recordCommit context ⟨"/t/a.chpl"⟩ none).on machine).2.notes = [] :=
  ⟨trivial, by decide +kernel, by decide +kernel⟩

end Grove

end Regression
