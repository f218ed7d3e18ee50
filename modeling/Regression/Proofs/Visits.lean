import Regression.Proofs.Markers
import Regression.Proofs.Tools
import Regression.Proofs.Walk

namespace Regression

variable {τ : Type} {c : Context} {handle : Handler} {m : Machine} {seen : Machine → List τ}

/-- A record that is not kept where messages go. -/
def Unwritten (seen : Machine → List τ) : Prop :=
  ∀ m files log console notes, seen { m with files, log, console, notes } = seen m

theorem note_quiet (hseen : Unwritten seen) (text : String) :
    (note text).Quiet (Steady m) seen := by
  intro m' hm'
  obtain ⟨files, log, console, hrun, hsteady⟩ := note_steady hm'.log text
  exact ⟨(), _, [], hrun, hm'.trans hsteady, by rw [hseen, List.append_nil], rfl⟩

theorem say_quiet (hseen : Unwritten seen) (line : String) :
    (say line).Gives (Steady m) seen fun _ new => new = [] := by
  intro m' hm'
  refine ⟨[], ⟨hm'.files, hm'.directory, hm'.tools, hm'.log⟩, ?_, rfl⟩
  rw [List.append_nil]
  exact hseen m' m'.files m'.log _ m'.notes

theorem Footing.of_steady {w : Terrain} {asks does : Path → List τ} (hw : m.Shows w.files w.cwd)
    (hseen : Unwritten seen)
    (hskip : w.options.cleanOnly = false → ∀ d, (Skip.evaluate c d).Gives (Steady m) seen
      fun v new => v.directive = w.directive d ∧ new = asks d)
    (hhandle : ∀ d, (handle d w.mode).Gives (Steady m) seen fun _ new => new = does d) :
    Footing c w handle (Steady m) seen asks does where
  view _ hm' := ⟨hm'.files.trans hw.files, hm'.directory.trans hw.directory⟩
  note := note_quiet hseen
  say := say_quiet hseen
  evaluate := hskip
  handle := hhandle

/-- Where the handler succeeds and leaves the tree alone, a walk from a directory hands over the
directories that the markers select, each once and in order. `directive` is what the markers say of
each directory, and `seen` a record that the handler keeps of what it is handed. -/
theorem walk_selects {o : WalkOptions} {mode : RunMode} {directive : Path → SkipDirective}
    {seen : Machine → List Path} {root : Path} {l : Location} {dm : Mode}
    (hfiles : m.files.WellFormed) (hlog : m.log.TakesAll m.files)
    (hroot : m.files.findItself m.directory root = .ok (l, .directory dm))
    (hseen : Unwritten seen)
    (hskip : o.cleanOnly = false → ∀ d, (Skip.evaluate c d).Gives (Steady m) seen
      fun v new => v.directive = directive d ∧ new = [])
    (hhandle : ∀ d, (handle d mode).Gives (Steady m) seen fun _ new => new = [d]) :
    ∃ report m', (walk c o mode handle root).on m = (.ok report, m') ∧ Steady m m' ∧
      seen m' = seen m ++
        Terrain.selected ⟨m.files, m.directory, o, mode, directive⟩ l root := by
  let w : Terrain := ⟨m.files, m.directory, o, mode, directive⟩
  have hfoot : Footing c w handle (Steady m) seen (fun _ => []) fun d => [d] :=
    Footing.of_steady ⟨rfl, rfl⟩ hseen hskip hhandle
  obtain ⟨report, m', new, hrun, hsteady, hadd, rfl⟩ :=
    hfoot.walk hfiles root m (Steady.refl hlog)
  refine ⟨report, m', hrun, hsteady, hadd.trans (congrArg _ ?_)⟩
  have hadds : (fun l d => w.adds l d (fun _ => []) fun d => [d]) =
      fun l d => if w.Chosen l d then [d] else [] := by
    funext l d
    simp [Terrain.adds]
  rw [hadds, Terrain.round_of_directory hroot, Terrain.tour_chosen]

namespace Grove

/-- A directory with a test, a directory in it with another one, and a link back up. -/
def files : FileTree :=
  { entries :=
      [([], .directory .newDirectory), (["t"], .directory .newDirectory),
        (["a.chpl", "t"], .file 0 .newFile []), (["s", "t"], .directory .newDirectory),
        (["b.chpl", "s", "t"], .file 1 .newFile []), (["up", "t"], .link "/t")]
    serial := 2 }

/-- A machine without tools. -/
def machine : Machine :=
  { files, tools := fun _ _ _ _ => .error .notFound, clock := ⟨2024, 5, 1, 12, 0, 0, 0⟩, process := 1
    scratchRoot := ⟨"/tmp"⟩ }

def context : Context :=
  { environment := .empty, utilDirectory := ⟨"/u"⟩, tmpDirectory := ⟨"/tmp"⟩
    invocationDirectory := ⟨"/"⟩ }

/-- A handler that takes down the directory as a command without arguments. -/
def mark : Handler := fun d _ =>
  modify fun m => { m with commands := { program := d.text } :: m.commands }

def marks (m : Machine) : List Path :=
  (m.commands.reverse.filter fun c => c.arguments.isEmpty).map fun c => ⟨c.program⟩

/-- Directives where no condition can be asked about. -/
def directive : Path → SkipDirective := Skip.directive files [] context fun _ _ => false

def terrain : Terrain := ⟨files, [], {}, .execute, directive⟩

theorem subdirectories_top : files.subdirectories ["t"] = ["s"] := by
  have hchildren : files.entries.filterMap (FileTree.child? ["t"]) =
      [("a.chpl", .file 0 .newFile []), ("s", .directory .newDirectory), ("up", .link "/t")] := rfl
  have hs : "a.chpl" ≤ "s" := by decide
  have hup : "s" ≤ "up" := by decide
  have hfar : "a.chpl" ≤ "up" := by decide
  simp [FileTree.subdirectories, FileTree.children, hchildren, List.mergeSort,
    List.MergeSort.Internal.splitInTwo, hs, hup, hfar, Node.isDirectory]

theorem subdirectories_inner : files.subdirectories ["s", "t"] = [] := by
  have hchildren : files.entries.filterMap (FileTree.child? ["s", "t"]) =
      [("b.chpl", .file 1 .newFile [])] := rfl
  simp [FileTree.subdirectories, FileTree.children, hchildren, Node.isDirectory]

theorem chosen_of_mem {l : Location} {d : Path} {s : String} {n : Node}
    (hd : terrain.directive d = .test) (hmem : (s :: l, n) ∈ files.entries)
    (hn : n.isDirectory = false) (hs : terrain.TestName s) : terrain.Chosen l d :=
  ⟨.inr hd, .inr (.inl ⟨(s, n), FileTree.mem_children.mpr hmem, hn, hs⟩)⟩

theorem selected : terrain.selected ["t"] ⟨"/t"⟩ = [⟨"/t"⟩, ⟨"/t/s"⟩] := by
  have htop : terrain.Chosen ["t"] ⟨"/t"⟩ :=
    chosen_of_mem (by decide +kernel) (s := "a.chpl") (n := .file 0 .newFile []) (by decide) rfl
      (by decide)
  have hinner : terrain.Chosen ["s", "t"] ⟨"/t/s"⟩ :=
    chosen_of_mem (by decide +kernel) (s := "b.chpl") (n := .file 1 .newFile []) (by decide) rfl
      (by decide)
  have hsub : terrain.files.subdirectories ["t"] = ["s"] := subdirectories_top
  have hsub' : terrain.files.subdirectories ["s", "t"] = [] := subdirectories_inner
  have hrecurse : terrain.options.recurse = true := rfl
  have hjoin : (Path.mk "/t") / "s" = ⟨"/t/s"⟩ := rfl
  rw [Terrain.selected_eq, if_pos (by decide +kernel), if_pos htop,
    if_pos hrecurse, hsub]
  simp only [List.flatMap_cons, List.flatMap_nil, List.append_nil, hjoin]
  rw [Terrain.selected_eq, if_pos (by decide +kernel), if_pos hinner,
    if_pos hrecurse, hsub']
  rfl

theorem unwritten : Unwritten marks := fun _ _ _ _ _ => rfl

theorem mark_gives (d : Path) : (mark d .execute).Gives (Steady machine) marks
    fun _ new => new = [d] := by
  intro m hm
  refine ⟨(), _, [d], rfl, ⟨hm.files, hm.directory, hm.tools, hm.log⟩, ?_, rfl⟩
  simp [marks]

theorem decides : Skip.Decides context files [] (fun _ _ => false) (Steady machine) marks
    fun _ _ => [] where
  shows _ hm := hm.shows
  answers d script _ _ := by
    intro m hm
    have hfails : m.tools m.commands (Skip.question context d script) m.directory m.files =
        .error .notFound := by
      rw [hm.tools]
      rfl
    have hquiet : Steady machine ((Skip.question context d script).start.on m).2 ∧
        marks ((Skip.question context d script).start.on m).2 = marks m := by
      rw [Command.start_on, hfails]
      exact ⟨⟨hm.files, hm.directory, hm.tools, hm.log⟩, by simp [marks, Skip.question]⟩
    rw [Command.attempt_capture_on, hfails]
    exact ⟨[], hquiet.1, by rw [hquiet.2, List.append_nil], rfl, rfl⟩

theorem directive_gives (d : Path) : (Skip.evaluate context d).Gives (Steady machine) marks
    fun v new => v.directive = directive d ∧ new = [] := by
  refine (Skip.evaluate_gives decides d).mono fun v new hgiven => ⟨hgiven.1, ?_⟩
  rw [hgiven.2]
  simp [Skip.asked, Skip.told]

theorem walk_selects_grove : ∃ report m',
    (walk context {} .execute mark ⟨"/t"⟩).on machine = (.ok report, m') ∧
      Steady machine m' ∧ marks m' = [⟨"/t"⟩, ⟨"/t/s"⟩] := by
  have hfiles : machine.files.WellFormed := ⟨by decide, by decide⟩
  have hroot : machine.files.findItself machine.directory ⟨"/t"⟩ =
      .ok (["t"], .directory .newDirectory) := rfl
  obtain ⟨report, m', hrun, hsteady, hmarks⟩ :=
    walk_selects hfiles trivial hroot unwritten (fun _ => directive_gives) mark_gives
  refine ⟨report, m', hrun, hsteady, ?_⟩
  rw [hmarks]
  exact selected

end Grove

end Regression
