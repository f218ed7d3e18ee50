import Regression.Proofs.Fates
import Regression.Proofs.Lasting
import Regression.Proofs.Lines
import Regression.Proofs.Listing
import Regression.Proofs.Tools
import Regression.Proofs.Visits

namespace Regression

namespace FileTree

/-- A tree in which every part of a place is a name. -/
def Named (t : FileTree) : Prop := ∀ e ∈ t.entries, ∀ s ∈ e.1, IsName s

variable {t t' : FileTree} {l : Location}

theorem mem_of_node? {n : Node} (h : t.node? l = some n) : (l, n) ∈ t.entries := by
  obtain ⟨before, after, hentries, -⟩ := List.lookup_eq_some_iff.mp h
  rw [hentries]
  exact List.mem_append_right _ List.mem_cons_self

/-- Contents do not count. -/
theorem Named.of_outline (h : t.Named) (ho : t'.outline = t.outline) : t'.Named := by
  intro e he
  have hmem : (e.1, e.2.outline) ∈ t.outline.entries := by
    rw [← ho]
    exact List.mem_map.mpr ⟨e, he, rfl⟩
  obtain ⟨e', he', heq⟩ := List.mem_map.mp hmem
  obtain ⟨hplace, -⟩ := Prod.mk.inj heq
  rw [← hplace]
  exact h e' he'

theorem Named.write (h : t.Named) {hd hd' : Handle} {bytes : Text.Bytes}
    (hwrite : t.write hd bytes = .ok (t', hd')) : t'.Named := by
  cases hd with
  | file serial offset =>
    cases offset with
    | none =>
      cases hwrite
      exact h.of_outline (outline_mapContents ..)
    | some n =>
      cases hwrite
      exact h.of_outline (outline_mapContents ..)
  | device d =>
    simp only [FileTree.write] at hwrite
    split at hwrite
    · next room hroom =>
      split at hwrite
      · cases hwrite
        rintro e (_ | ⟨_, he⟩)
        · exact h (d, .device (some room)) (mem_of_node? hroom)
        · exact h e (List.mem_filter.mp he).1
      · cases hwrite
    · cases hwrite
      exact h

theorem Named.list {cwd : Location} {p : Path} {entries : List (String × Node)} (h : t.Named)
    (hlist : t.list cwd p = .ok entries) : ∀ e ∈ entries, IsName e.1 := by
  obtain ⟨⟨l, n⟩, -, hlist⟩ := bind_ok hlist
  cases n with
  | directory dm =>
    simp only at hlist
    split at hlist
    · cases hlist
      intro e he
      exact h _ (mem_children.mp he) _ List.mem_cons_self
    · cases hlist
  | _ => cases hlist

end FileTree

/-- Tools that give nothing in the tree a place that no name can have. -/
def Tools.KeepNames (tools : Tools) : Prop :=
  ∀ history c cwd files ended, tools history c cwd files = .ok ended → files.Named →
    ended.files.Named

namespace Walk

variable {c : Context} {o : WalkOptions} {mode : RunMode} {handle : Handler} {root d : Path}
  {v : Verdict} {r r' report : WalkReport} {deeper : Bool} {m m' m₁ : Machine} {base : List String}

theorem trimEnd_workingOn (d : Path) : Text.trimEnd (workingOn d) = workingOn d :=
  Text.trimEnd_seen (t := "]") (c := ']') (by decide) (by decide) _

theorem trimEnd_cannotEnter (d : Path) : Text.trimEnd (cannotEnter d) = cannotEnter d :=
  Text.trimEnd_seen (t := " skipping directory]") (c := ']') (by decide) (by decide) _

theorem workingOn_opening (d : Path) :
    Text.startsWith (workingOn d) "[Working on directory " = true := by
  unfold workingOn
  rw [String.append_assoc]
  exact Text.startsWith_self _ _

theorem cannotEnter_opening (d : Path) :
    Text.startsWith (cannotEnter d) "[Warning: Cannot cd into " = true := by
  unfold cannotEnter
  rw [String.append_assoc]
  exact Text.startsWith_self _ _

/-- A line that is not cut to one of the two that account for a directory. -/
structure Other (root : Path) (line : String) : Prop where
  working : Text.trimEnd line ≠ workingOn root
  refused : Text.trimEnd line ≠ cannotEnter root

theorem Other.of_opening {line : String}
    (hworking : Text.startsWith line "[Working on directory " = false)
    (hrefused : Text.startsWith line "[Warning: Cannot cd into " = false) : Other root line :=
  ⟨Text.trimEnd_ne (workingOn_opening root) hworking,
    Text.trimEnd_ne (cannotEnter_opening root) hrefused⟩

/-- It is enough that a line begins otherwise. -/
theorem Other.of_start {start : String} (rest : String)
    (hworking : Text.startsWith start "[Working on directory " = false ∧
      Text.startsWith "[Working on directory " start = false)
    (hrefused : Text.startsWith start "[Warning: Cannot cd into " = false ∧
      Text.startsWith "[Warning: Cannot cd into " start = false) : Other root (start ++ rest) :=
  .of_opening (Text.startsWith_append_false hworking.1 hworking.2)
    (Text.startsWith_append_false hrefused.1 hrefused.2)

theorem workingOn_ne (d root : Path) : workingOn d ≠ cannotEnter root := by
  rw [← trimEnd_workingOn]
  refine Text.trimEnd_ne (cannotEnter_opening root) ?_
  unfold workingOn
  rw [String.append_assoc]
  exact Text.startsWith_append_false (by decide) (by decide)

/-- The lines that account for another directory are none of these. -/
theorem Other.workingOn (h : d.text ≠ root.text) : Other root (workingOn d) := by
  refine ⟨?_, ?_⟩
  · rw [trimEnd_workingOn]
    unfold Walk.workingOn
    intro he
    rw [String.append_left_inj, String.append_right_inj] at he
    exact h he
  · rw [trimEnd_workingOn]
    exact workingOn_ne d root

theorem Other.cannotEnter (h : d.text ≠ root.text) : Other root (cannotEnter d) := by
  refine ⟨?_, ?_⟩
  · rw [trimEnd_cannotEnter]
    exact (workingOn_ne root d).symm
  · rw [trimEnd_cannotEnter]
    unfold Walk.cannotEnter
    intro he
    rw [String.append_left_inj, String.append_right_inj] at he
    exact h he

end Walk

/-- Whatever becomes of a message, the tree keeps its names. -/
theorem FileTree.Named.note {m : Machine} (h : m.files.Named) (text : String) :
    ((note text).on m).2.files.Named := by
  cases hlog : m.log with
  | memory messages =>
    rw [note_on_memory hlog]
    exact h
  | file l =>
    rw [note_on_file hlog]
    cases l.handle with
    | none => exact h
    | some hd =>
      simp only
      split
      · next hwrite => exact h.write hwrite
      · exact h

/-- What is answered whatever the machine. -/
theorem Effect.bind_answers {α β : Type} {e : Effect α} {f : α → Effect β} {P : α → Prop}
    {Q : β → Prop} (he : ∀ m, P (e.on m).1) (hf : ∀ a, P a → ∀ m, Q ((f a).on m).1) (m : Machine) :
    Q ((e >>= f).on m).1 :=
  hf _ (he m) _

namespace Skip

variable {c : Context} {d : Path}

/-- What evaluating markers warns of. -/
def warnings : List String := ["[Warning: .skipif error.]", "[Warning: SKIPIF error.]"]

/-- A verdict that warns of nothing else. -/
def Warns (v : Verdict) : Prop := ∀ w ∈ v.warnings, w ∈ warnings

theorem condition_warns {warning : String} {v : Verdict} (hwarning : warning ∈ warnings)
    (hv : Warns v) (marker : Option Path) (m : Machine) :
    Warns ((condition c d marker warning v).on m).1.2 := by
  unfold condition
  split
  · exact hv
  · refine Effect.bind_answers (P := fun _ => True)
      (Q := fun found : Option Path × Verdict => Warns found.2) (fun _ => trivial) (fun m _ => ?_) m
    split
    · exact fun _ => hv
    · refine Effect.bind_answers (P := fun _ => True)
        (Q := fun found : Option Path × Verdict => Warns found.2) (fun _ => trivial) fun output _ => ?_
      split
      · exact fun _ => hv
      · exact fun _ => List.forall_mem_append.mpr ⟨hv, List.forall_mem_singleton.mpr hwarning⟩

theorem evaluate_warns (c : Context) (d : Path) (m : Machine) : Warns ((evaluate c d).on m).1 := by
  unfold evaluate
  refine Effect.bind_answers (P := fun _ => True) (fun _ => trivial) (fun m _ => ?_) m
  split
  · exact fun _ _ hw => absurd hw List.not_mem_nil
  · refine Effect.bind_answers (P := fun found => Warns found.2)
      (condition_warns (by decide) (fun _ hw => absurd hw List.not_mem_nil) _) fun found hv => ?_
    obtain ⟨fired, v⟩ := found
    simp only
    split
    · exact fun _ => hv
    · refine Effect.bind_answers (P := fun found => Warns found.2)
        (condition_warns (by decide) hv _) fun found' hv' => ?_
      obtain ⟨fired', v'⟩ := found'
      simp only
      split
      · exact fun _ => hv'
      · refine Effect.bind_answers (P := fun _ => True) (fun _ => trivial) fun m' _ => ?_
        split <;> exact fun _ => hv'

end Skip

/-- One report counts all that another does. -/
instance : LE WalkReport where
  le r r' := r.visited ≤ r'.visited ∧ r.pruned ≤ r'.pruned ∧ r.skipped ≤ r'.skipped ∧
    r.empty ≤ r'.empty ∧ r.handled ≤ r'.handled ∧ r.inaccessible ≤ r'.inaccessible

theorem WalkReport.le_refl (r : WalkReport) : r ≤ r :=
  ⟨Nat.le_refl _, Nat.le_refl _, Nat.le_refl _, Nat.le_refl _, Nat.le_refl _, Nat.le_refl _⟩

namespace Walk

variable {c : Context} {o : WalkOptions} {mode : RunMode} {handle : Handler} {root d : Path}
  {v : Verdict} {r r' report : WalkReport} {deeper : Bool} {m m' : Machine} {base : List String}

/-- A machine whose log has been told of no line since `base` that accounts for a directory. -/
structure Silent (root : Path) (base : List String) (m : Machine) : Prop where
  names : m.files.Named
  tools : m.tools.KeepNames
  told : ∃ rest, m.notes = rest ++ base ∧ workingOn root ∉ rest ∧ cannotEnter root ∉ rest

namespace Silent

theorem note (h : Silent root base m) {text : String} (hother : Other root text) :
    Silent root base ((note text).on m).2 := by
  obtain ⟨rest, hrest, hworking, hrefused⟩ := h.told
  have hnames := h.names.note text
  obtain ⟨files, log, console, hnote⟩ := note_records m text
  rw [hnote] at hnames ⊢
  refine ⟨hnames, h.tools, Text.trimEnd text :: rest, congrArg _ hrest, ?_, ?_⟩
  · exact List.not_mem_cons_of_ne_of_not_mem hother.working.symm hworking
  · exact List.not_mem_cons_of_ne_of_not_mem hother.refused.symm hrefused

theorem stays_note {text : String} (hother : Other root text) :
    (Regression.note text).Stays (Silent root base) :=
  fun _ h => ⟨h.note hother, fun _ _ => trivial⟩

theorem starting : Starting (fun _ => True) (Silent root base) := by
  refine ⟨fun _ _ h => ⟨h.names, h.tools, h.told⟩, fun _ _ h => ⟨h.names, h.tools, h.told⟩, ?_⟩
  intro m c _ h
  rw [Command.start_on]
  cases hrun : m.tools m.commands c m.directory m.files with
  | error fault => exact ⟨h.names, h.tools, h.told⟩
  | ok ended => exact ⟨h.tools _ _ _ _ _ hrun h.names, h.tools, h.told⟩

theorem tell (hv : Skip.Warns v) : v.tell.Stays (Silent root base) := by
  have hother : ∀ w ∈ Skip.warnings, Other root w := by
    intro w hw
    rw [Skip.warnings, List.mem_pair] at hw
    rcases hw with rfl | rfl <;> exact .of_opening (by decide) (by decide)
  unfold Verdict.tell
  refine (Job.Keeps.each fun line _ => Job.Keeps.lift (starting.say line)).after fun _ => ?_
  refine (Job.Keeps.each fun w hw => stays_note (hother w (hv w hw))).after fun _ => ?_
  exact Job.Keeps.given _

theorem judge : (judge c o d).Stays (Silent root base) := by
  unfold Walk.judge
  split
  · exact Effect.Stays.pure _
  · exact starting.evaluate fun _ => trivial

theorem judge_warns (c : Context) (o : WalkOptions) (d : Path) (m : Machine) :
    Skip.Warns ((Walk.judge c o d).on m).1 := by
  unfold Walk.judge
  split
  · exact fun _ hw => absurd hw List.not_mem_nil
  · exact Skip.evaluate_warns c d m

/-- What becomes of any directory is told of otherwise. -/
theorem fate (hhandle : Lasting.Handles (Silent root base) handle)
    (h : Silent root base m) (hfate : Fate o mode handle d v r m deeper r' m') :
    Silent root base m' := by
  cases hfate with
  | pruned hv hnote =>
    refine (Job.Keeps.either (stays_note ?_) (Job.Keeps.given _)).leaves h hnote
    rw [String.append_assoc]
    exact .of_start _ (by decide) (by decide)
  | skipped hv hnote =>
    refine (Job.Keeps.either (stays_note ?_) (Job.Keeps.given _)).leaves h hnote
    exact .of_opening (by decide) (by decide)
  | handled hv htests hrun => exact (hhandle d mode).leaves h hrun
  | empty hv hmode hnone hnote =>
    refine (stays_note ?_).leaves h hnote
    rw [String.append_assoc]
    exact .of_start _ (by decide) (by decide)

/-- A directory is worked on, told of in lines that are not the root's. -/
theorem works {m₁ m₂ m₃ : Machine} (h : Silent root base m₁)
    (hworks : WorksOn c o mode handle d v m m₁ m₂ m₃) : Silent root base m₃ := by
  have hwarns := judge_warns c o d m₁
  have hjudged := judge (c := c) (o := o) (d := d) m₁ h
  rw [hworks.judged] at hwarns hjudged
  exact (tell hwarns).leaves hjudged hworks.told

end Silent

/-- What lies below a directory has a longer path. -/
theorem below_longer (h : m.files.Named) {child : Path} (hchild : child ∈ below m d) :
    d.text.utf8ByteSize < child.text.utf8ByteSize := by
  unfold below at hchild
  split at hchild
  · next entries hlist =>
    obtain ⟨⟨name, n⟩, hmem, hsome⟩ := List.mem_filterMap.mp hchild
    have hname : IsName name := h.list hlist _ hmem
    simp only [Option.ite_none_right_eq_some, Option.some.injEq] at hsome
    rw [← hsome.2]
    exact d.size_join hname.whole hname.filled
  · cases hchild

theorem upholds_below (hhandle : Lasting.Handles (Silent root base) handle) (r₀ : WalkReport) :
    Upholds c o mode handle (fun d => root.text.utf8ByteSize < d.text.utf8ByteSize)
      fun r m => Silent root base m ∧ r₀ ≤ r := by
  have hother : ∀ {d : Path}, root.text.utf8ByteSize < d.text.utf8ByteSize → d.text ≠ root.text := by
    rintro d hd he
    rw [he] at hd
    exact Nat.lt_irrefl _ hd
  refine ⟨fun r m d h hd child hchild => Nat.lt_trans hd (below_longer h.1.names hchild), ?_, ?_⟩
  · rintro d hd r m u r' m' ⟨h, hr⟩ hok
    obtain ⟨_, _, hnote, hcount⟩ := Threaded.lift_bind_ok hok
    cases hcount
    refine ⟨(Silent.stays_note (.cannotEnter (hother hd))).leaves h hnote, ?_⟩
    obtain ⟨h₁, h₂, h₃, h₄, h₅, h₆⟩ := hr
    exact ⟨h₁, h₂, h₃, h₄, h₅, Nat.le_trans h₆ (Nat.le_succ _)⟩
  · rintro d hd r m deeper r' m' ⟨h, hr⟩ hok
    obtain ⟨v, m₁, m₂, m₃, hworks, hfate⟩ := workOn_ok hok
    obtain ⟨_, m₀, hblank, hnote⟩ := Job.bind_ok hworks.announced
    have h₀ := (Silent.stays_note (.of_opening (by decide) (by decide))).leaves h hblank
    have h₁ := (Silent.stays_note (.workingOn (hother hd))).leaves h₀ hnote
    refine ⟨(h₁.works hworks).fate hhandle hfate, ?_⟩
    obtain ⟨_, _, _, _, _, _⟩ := hr
    cases hfate <;> refine ⟨?_, ?_, ?_, ?_, ?_, ?_⟩ <;> simp only <;> omega

/-- A directory that a walk came to was worked on, met its fate, and is counted in the report. -/
def Attended (c : Context) (o : WalkOptions) (mode : RunMode) (handle : Handler) (d : Path)
    (m : Machine) (report : WalkReport) : Prop :=
  ∃ v m₁ m₂ m₃ deeper r m₄, WorksOn c o mode handle d v m m₁ m₂ m₃ ∧
    Fate o mode handle d v { visited := 1 } m₃ deeper r m₄ ∧ r ≤ report

/-- What a walk makes of the directory that it starts from. -/
structure Accounts (c : Context) (o : WalkOptions) (mode : RunMode) (handle : Handler) (root : Path)
    (m : Machine) (report : WalkReport) (m' : Machine) : Prop where
  /-- One line accounts for it, and where that says that it is worked on, it was. -/
  told : ∃ told, m'.notes.reverse = m.notes.reverse ++ told ∧
    told.count (workingOn root) + told.count (cannotEnter root) = 1 ∧
    (workingOn root ∈ told → Attended c o mode handle root m report)
  counted : 1 ≤ report.visited + report.inaccessible

theorem accounts_of_reject (h : ((reject root).run {}).on m = (.ok ((), report), m')) :
    Accounts c o mode handle root m report m' := by
  obtain ⟨_, _, hnote, hcount⟩ := Threaded.lift_bind_ok h
  cases hcount
  obtain ⟨files, log, console, rfl⟩ := note_ok hnote
  have hne := workingOn_ne root root
  refine ⟨⟨[cannotEnter root], ?_, ?_, ?_⟩, Nat.le_refl _⟩
  · rw [trimEnd_cannotEnter]
    exact List.reverse_cons
  · rw [List.count_eq_zero_of_not_mem (by simpa using hne), List.count_singleton_self]
  · exact fun hmem => absurd (List.mem_singleton.mp hmem) hne

/-- Once a directory has been announced, nothing that accounts for it is told any more. -/
theorem accounts_of_work {m₁ m₂ m₃ m₄ : Machine}
    (hworks : WorksOn c o mode handle root v m m₁ m₂ m₃)
    (hfate : Fate o mode handle root v { visited := 1 } m₃ deeper r m₄) (hr : r ≤ report)
    (hsilent : Silent root m₁.notes m') : Accounts c o mode handle root m report m' := by
  have hne := workingOn_ne root root
  have hvisited : 1 ≤ report.visited := by
    have hle := hr.1
    cases hfate <;> exact hle
  obtain ⟨rest, hrest, hworking, hrefused⟩ := hsilent.told
  obtain ⟨_, m₀, hblank, hnote⟩ := Job.bind_ok hworks.announced
  obtain ⟨_, _, _, rfl⟩ := note_ok hblank
  obtain ⟨_, _, _, rfl⟩ := note_ok hnote
  rw [trimEnd_workingOn, Text.trimEnd_empty] at hrest
  refine ⟨⟨"" :: workingOn root :: rest.reverse, ?_, ?_, ?_⟩, Nat.le_add_right_of_le hvisited⟩
  · rw [hrest]
    simp
  · have hblank₁ : "" ≠ workingOn root := by
      intro he
      have hopening := workingOn_opening root
      rw [← he] at hopening
      exact absurd hopening (by decide)
    have hblank₂ : "" ≠ cannotEnter root := by
      intro he
      have hopening := cannotEnter_opening root
      rw [← he] at hopening
      exact absurd hopening (by decide)
    rw [List.count_cons_of_ne hblank₁, List.count_cons_self, List.count_cons_of_ne hblank₂,
      List.count_cons_of_ne hne, List.count_eq_zero_of_not_mem (by simpa using hworking),
      List.count_eq_zero_of_not_mem (by simpa using hrefused)]
  · exact fun _ => ⟨v, _, m₂, m₃, deeper, r, m₄, hworks, hfate, hr⟩

theorem announced {m₁ m₂ m₃ : Machine} (hnames : m.files.Named) (htools : m.tools.KeepNames)
    (hworks : WorksOn c o mode handle root v m m₁ m₂ m₃) : Silent root m₁.notes m₁ := by
  obtain ⟨_, m₀, hblank, hnote⟩ := Job.bind_ok hworks.announced
  have hnames₀ := hnames.note ""
  rw [show (note "").on m = (.ok _, m₀) from hblank] at hnames₀
  have hnames₁ := hnames₀.note (workingOn root)
  rw [hnote] at hnames₁
  obtain ⟨_, _, _, rfl⟩ := note_ok hblank
  obtain ⟨_, _, _, rfl⟩ := note_ok hnote
  exact ⟨hnames₁, htools, [], rfl, List.not_mem_nil, List.not_mem_nil⟩

theorem visit_accounts {levels : Nat} (hnames : m.files.Named) (htools : m.tools.KeepNames)
    (hbundle : inSymbolBundle root = false)
    (hhandle : ∀ base, Lasting.Handles (Silent root base) handle)
    (h : ((visit c o mode handle (levels + 1) root).run {}).on m = (.ok ((), report), m')) :
    Accounts c o mode handle root m report m' := by
  obtain ⟨_, _, hget, h⟩ := Threaded.lift_bind_ok (j := get) h
  cases hget
  simp only [hbundle, Bool.not_false, ↓reduceIte] at h
  split at h
  · exact accounts_of_reject h
  · obtain ⟨deeper, r, m₄, hwork, h⟩ := Threaded.bind_ok h
    obtain ⟨v, m₁, m₂, m₃, hworks, hfate⟩ := workOn_ok hwork
    have hsilent := ((announced hnames htools hworks).works hworks).fate (hhandle _) hfate
    have hbelow : ∀ child ∈ below m root, root.text.utf8ByteSize < child.text.utf8ByteSize :=
      fun child hchild => below_longer hnames hchild
    -- What lies below the root is told of in lines of its own.
    have hrest : Silent root m₁.notes m' ∧ r ≤ report := by
      have hholds : Upholds c o mode handle
          (fun d => root.text.utf8ByteSize < d.text.utf8ByteSize)
          fun r' m => Silent root m₁.notes m ∧ r ≤ r' := upholds_below (hhandle m₁.notes) r
      split at h
      · exact Upholds.visitAll levels
          (fun child hchild => hholds.visit levels child (hbelow child hchild))
          r m₄ () report m' ⟨hsilent, WalkReport.le_refl r⟩ h
      · cases h
        exact ⟨hsilent, WalkReport.le_refl _⟩
    exact accounts_of_work hworks hfate hrest.2 hrest.1

end Walk

/-- A walk that succeeds accounts for the directory that it starts from: one line of the log says that
it is worked on or that it cannot be entered, and in the first case its markers are obeyed and it is
counted as handled, skipped, pruned or without tests. -/
theorem walk_accounts {c : Context} {o : WalkOptions} {mode : RunMode} {handle : Handler}
    {root : Path} {report : WalkReport} {m m₁ m' : Machine} {l : Location} {dm : Mode}
    (hstart : (note ("[Working from directory " ++ root.text ++ "]")).on m = (.ok (), m₁))
    (hroot : m₁.files.findItself m₁.directory root = .ok (l, .directory dm))
    (hbundle : Walk.inSymbolBundle root = false) (hnames : m₁.files.Named)
    (htools : m₁.tools.KeepNames)
    (hhandle : ∀ base, Lasting.Handles (Walk.Silent root base) handle)
    (hrun : (walk c o mode handle root).on m = (.ok report, m')) :
    Walk.Accounts c o mode handle root m₁ report m' := by
  rw [walk, Job.on_bind_ok hstart] at hrun
  obtain ⟨⟨_, _⟩, _, hbegin, hend⟩ := Job.bind_ok hrun
  cases hend
  obtain ⟨_, _, hget, hvisit⟩ := Threaded.lift_bind_ok (j := get) hbegin
  cases hget
  rw [hroot] at hvisit
  exact Walk.visit_accounts hnames htools hbundle hhandle hvisit

namespace Grove

/-- A handler that only takes down commands tells the log of nothing. -/
theorem mark_silent (root : Path) (base : List String) :
    Lasting.Handles (Walk.Silent root base) mark :=
  fun _ _ _ h => ⟨⟨h.names, h.tools, h.told⟩, fun _ _ => trivial⟩

theorem walk_accounts_grove : ∃ report m₁ m',
    (walk context {} .execute mark ⟨"/t"⟩).on machine = (.ok report, m') ∧
      Walk.Accounts context {} .execute mark ⟨"/t"⟩ m₁ report m' := by
  have hfiles : machine.files.WellFormed := ⟨by decide, by decide⟩
  have hfoot : Footing context terrain mark (Steady machine) marks (fun _ => []) fun d => [d] :=
    Footing.of_steady ⟨rfl, rfl⟩ unwritten (fun _ => directive_gives) mark_gives
  obtain ⟨report, m', -, hrun, -⟩ := hfoot.walk hfiles ⟨"/t"⟩ machine (Steady.refl trivial)
  have hstart : (note ("[Working from directory " ++ (Path.mk "/t").text ++ "]")).on machine =
      (.ok (), ((note "[Working from directory /t]").on machine).2) := rfl
  have hroot : machine.files.findItself machine.directory ⟨"/t"⟩ =
      .ok (["t"], .directory .newDirectory) := rfl
  have htools : machine.tools.KeepNames := fun _ _ _ _ _ h => by cases h
  exact ⟨report, _, m', hrun, walk_accounts hstart hroot (by decide +kernel) hfiles.named htools
    (mark_silent ⟨"/t"⟩) hrun⟩

/-- A link to a directory counts as a directory to be tested, and a walk from it tells of neither and
counts nothing. -/
theorem link_unaccounted : Target.classify machine ⟨"/t/up"⟩ ⟨"/"⟩ = some (.directory ⟨"/t/up"⟩) ∧
    Walk.inSymbolBundle ⟨"/t/up"⟩ = false ∧
    ∃ m', (walk context { recurse := false } .execute mark ⟨"/t/up"⟩).on machine = (.ok {}, m') ∧
      m'.notes = ["[Working from directory /t/up]"] := by
  refine ⟨by decide +kernel, by decide +kernel, _, rfl, by decide +kernel⟩

end Grove

end Regression
