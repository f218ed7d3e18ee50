import Regression.Proofs.Removal
import Regression.Proofs.Steady

namespace Regression

variable {m : Machine} {c : Command}

/-- The commands asked for so far, in order. -/
def Machine.started (m : Machine) : List Command := m.commands.reverse

/-- The standard output of a tool that exits with 0. -/
def Command.printed : Except Fault Ended → Option String
  | .ok ended =>
    if ended.status = .exited 0 then some (Text.decodeLossy (ended.on .output)) else none
  | .error _ => none

/-- A tool that starts whatever was started before it and whatever lies there. -/
def Tools.Start (tools : Tools) (cwd : Location) (c : Command) : Prop :=
  ∀ history files, ∃ ended, tools history c cwd files = .ok ended

/-- A tool that leaves files looking as they did. -/
def Tools.Spare (tools : Tools) (cwd : Location) (c : Command) : Prop :=
  ∀ history files ended, tools history c cwd files = .ok ended →
    ended.files.outline = files.outline

/-- A later machine on which besides no time has passed. -/
structure Abiding (m m' : Machine) : Prop extends Steady m m' where
  uptime : m'.uptime = m.uptime

theorem Abiding.refl (h : m.log.TakesAll m.files) : Abiding m m := ⟨Steady.refl h, rfl⟩

theorem Log.TakesAll.of_outline {t t' : FileTree} {log : Log} (h : log.TakesAll t)
    (he : t'.outline = t.outline) : log.TakesAll t' := by
  cases log with
  | memory => trivial
  | file logger =>
    obtain ⟨path, handle, echo⟩ := logger
    cases handle with
    | none => trivial
    | some hd =>
      cases hd with
      | file => trivial
      | device l =>
        intro room hr
        have hnode : (t.node? l).map Node.outline = some (.device (some room)) := by
          rw [← FileTree.node?_outline, ← he, FileTree.node?_outline, hr]
          rfl
        obtain ⟨n, hn, hdev⟩ := Option.map_eq_some_iff.mp hnode
        cases n <;> cases hdev
        exact h room hn

/-- What is taken away with a device gives no line less room. -/
theorem Log.TakesAll.prune {t : FileTree} {log : Log} (h : log.TakesAll t) (l : Location) :
    log.TakesAll (t.prune l) := by
  cases log with
  | memory => trivial
  | file logger =>
    obtain ⟨path, handle, echo⟩ := logger
    cases handle with
    | none => trivial
    | some hd =>
      cases hd with
      | file => trivial
      | device l' =>
        intro room hr
        rw [FileTree.node?_prune] at hr
        split at hr
        · cases hr
        · exact h room hr

theorem note_abiding (text : String) : (note text).Quiet (Abiding m) Machine.started := by
  intro m' hm'
  obtain ⟨files, log, console, hrun, hsteady⟩ := note_steady hm'.log text
  exact ⟨(), _, [], hrun, ⟨hm'.toSteady.trans hsteady, hm'.uptime⟩,
    (List.append_nil _).symm, rfl⟩

theorem say_abiding (line : String) :
    (say line).Gives (Abiding m) Machine.started fun _ new => new = [] := by
  intro m' hm'
  exact ⟨[], ⟨⟨hm'.files, hm'.directory, hm'.tools, hm'.log⟩, hm'.uptime⟩,
    (List.append_nil _).symm, rfl⟩

theorem complain_abiding (line : String) :
    (complain line).Gives (Abiding m) Machine.started fun _ new => new = [] := by
  intro m' hm'
  exact ⟨[], ⟨⟨hm'.files, hm'.directory, hm'.tools, hm'.log⟩, hm'.uptime⟩,
    (List.append_nil _).symm, rfl⟩

namespace Command

theorem start_on (c : Command) (m : Machine) : c.start.on m =
    match m.tools m.commands c m.directory m.files with
    | .ok ended =>
      (.ok ended, { m with
        commands := c :: m.commands
        files := ended.files
        changes := { tool := some c, before := m.files, after := ended.files } :: m.changes })
    | .error fault =>
      (.error (.command c.shown (-1) fault.message), { m with commands := c :: m.commands }) := by
  simp only [start, Job.on_bind, Job.on_get, Job.on_set]
  cases m.tools m.commands c m.directory m.files with
  | error fault => rfl
  | ok ended => rfl

theorem same_tool {m' : Machine} (hm' : Steady m m') (c : Command) :
    m'.tools m'.commands c m'.directory m'.files = m.tools m'.commands c m.directory m'.files := by
  rw [hm'.tools, hm'.directory]

/-- A started command is taken down, and a tool that spares the files leaves a machine to go on
with, whether it started or not. -/
theorem abiding_start (hs : m.tools.Spare m.directory c) {m' : Machine} (hm' : Abiding m m') :
    Abiding m (c.start.on m').2 ∧ (c.start.on m').2.started = m'.started ++ [c] := by
  rw [start_on, same_tool hm'.toSteady]
  cases ht : m.tools m'.commands c m.directory m'.files with
  | error fault =>
    exact ⟨⟨⟨hm'.files, hm'.directory, hm'.tools, hm'.log⟩, hm'.uptime⟩, List.reverse_cons⟩
  | ok ended =>
    have hfiles := (hs _ _ _ ht).trans hm'.files
    have hlog := hm'.log.of_outline (hfiles.trans hm'.files.symm)
    exact ⟨⟨⟨hfiles, hm'.directory, hm'.tools, hlog⟩, hm'.uptime⟩, List.reverse_cons⟩

theorem start_gives (hs : m.tools.Spare m.directory c) (hc : m.tools.Start m.directory c) :
    c.start.Gives (Abiding m) Machine.started fun _ new => new = [c] := by
  intro m' hm'
  obtain ⟨habide, hadd⟩ := abiding_start hs hm'
  obtain ⟨ended, ht⟩ := hc m'.commands m'.files
  have hrun := start_on c m'
  rw [same_tool hm'.toSteady, ht] at hrun
  exact ⟨ended, (c.start.on m').2, [c], by rw [hrun], habide, hadd, rfl⟩

theorem follow_gives (hs : m.tools.Spare m.directory c) (hc : m.tools.Start m.directory c) :
    c.follow.Gives (Abiding m) Machine.started fun _ new => new = [c] := by
  refine Job.Gives.bind (start_gives hs hc) ?_
  rintro ended _ rfl
  refine Job.Gives.bind (Job.Gives.each_quiet fun line _ => note_abiding _) ?_
  rintro _ _ rfl
  exact Job.Gives.pure rfl

theorem attempt_capture_on (c : Command) (m : Machine) : (attempt c.capture).on m =
    (printed (m.tools m.commands c m.directory m.files),
      match m.tools m.commands c m.directory m.files with
      | .ok ended =>
        { (c.start.on m).2 with
          diagnostics := m.diagnostics ++ Text.decodeLossy (ended.on .diagnostics) }
      | .error _ => (c.start.on m).2) := by
  simp only [attempt_on, capture, captureWith, Job.on_bind, start_on]
  cases m.tools m.commands c m.directory m.files with
  | error fault => rfl
  | ok ended =>
    simp only [↓reduceIte, Job.on_bind, Job.on_modify, printed]
    split <;> rfl

theorem attempt_capture_started (c : Command) (m : Machine) :
    ((attempt c.capture).on m).2.started = m.started ++ [c] := by
  rw [attempt_capture_on, start_on]
  cases m.tools m.commands c m.directory m.files <;> exact List.reverse_cons

theorem capture_gives (hs : m.tools.Spare m.directory c) :
    Effect.Gives (Abiding m) Machine.started (attempt c.capture) fun _ new => new = [c] := by
  intro m' hm'
  obtain ⟨habide, hadd⟩ := abiding_start hs hm'
  rw [attempt_capture_on]
  cases m'.tools m'.commands c m'.directory m'.files with
  | error fault => exact ⟨[c], habide, hadd, rfl⟩
  | ok ended =>
    exact ⟨[c], ⟨⟨habide.files, habide.directory, habide.tools, habide.log⟩, habide.uptime⟩, hadd, rfl⟩

end Command

end Regression
