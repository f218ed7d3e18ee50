import Regression.Proofs.Checks
import Regression.Proofs.Cleaning
import Regression.Proofs.Graphing
import Regression.Proofs.Unmarked

namespace Regression

open Summary (graphLines)
open Text (Unmarked)

namespace Asking

def graphs (a : Asking) : Bool := a.command.tool == "genGraphs"

/-- Whether a helper is asked that keeps the timings of the compiler, or the commit with them. -/
def keeps (a : Asking) : Bool := ["combineCompPerfData", "computePerfStats"].contains a.command.tool

/-- The tool starts, exits with 0 and is listened to. -/
def prints (a : Asking) : Bool := (Command.printed a.answer).isSome

end Asking

/-- The attempts of the graph helper that succeed. -/
def graphSuccesses (asked : List Asking) : Nat := asked.countP fun a => a.graphs && a.succeeds

def graphFailures (asked : List Asking) : Nat := asked.countP fun a => a.graphs && !a.succeeds

/-- The timings that are not merged, and the commits that are not recorded. -/
def keepingFailures (asked : List Asking) : Nat := asked.countP fun a => a.keeps && !a.prints

section Counts

variable (asked asked' : List Asking)

theorem graphSuccesses_append :
    graphSuccesses (asked ++ asked') = graphSuccesses asked + graphSuccesses asked' :=
  List.countP_append

theorem graphFailures_append :
    graphFailures (asked ++ asked') = graphFailures asked + graphFailures asked' :=
  List.countP_append

theorem keepingFailures_append :
    keepingFailures (asked ++ asked') = keepingFailures asked + keepingFailures asked' :=
  List.countP_append

end Counts

/-- A machine goes on to another one by single steps, with the commands that are asked for on the way,
each with the machine that it is asked of. -/
inductive Goes (m₁ : Machine) : List Asking → Machine → Prop where
  | begun : Goes m₁ [] m₁
  | shown {asked : List Asking} {m : Machine} (text : String) (h : Goes m₁ asked m) :
    Goes m₁ asked { m with console := text }
  | diagnosed {asked : List Asking} {m : Machine} (text : String) (h : Goes m₁ asked m) :
    Goes m₁ asked { m with diagnostics := text }
  | noted {asked : List Asking} {m : Machine} (text : String) (h : Goes m₁ asked m) :
    Goes m₁ asked ((note text).on m).2
  | edited {asked : List Asking} {m : Machine}
    (change : FileTree → Location → Except Fault FileTree) (h : Goes m₁ asked m) :
    Goes m₁ asked ((edit change).on m).2
  | started {asked : List Asking} {m : Machine} (c : Command) (h : Goes m₁ asked m) :
    Goes m₁ (asked ++ [⟨c, m⟩]) (c.start.on m).2

/-- The commands of the way are all those that are taken down on it. -/
theorem Goes.commands {m₁ m : Machine} {asked : List Asking} (h : Goes m₁ asked m) :
    m.started = m₁.started ++ asked.map (·.command) := by
  induction h with
  | begun => simp
  | shown text _ ih => exact ih
  | diagnosed text _ ih => exact ih
  | @noted asked m text _ ih =>
    obtain ⟨files, log, console, hnote⟩ := note_records m text
    rw [hnote]
    exact ih
  | @edited asked m change _ ih =>
    rw [edit, editOr_on]
    cases change m.files m.directory <;> exact ih
  | @started asked m c _ ih =>
    have hstarted : (c.start.on m).2.started = m.started ++ [c] := by
      rw [Command.start_on]
      cases m.tools m.commands c m.directory m.files <;> exact List.reverse_cons
    rw [hstarted, ih, List.map_append, List.append_assoc]
    rfl

/-- No step exchanges the tools. -/
theorem Goes.tools {m₁ m : Machine} {asked : List Asking} (h : Goes m₁ asked m) :
    m.tools = m₁.tools ∧ ∀ a ∈ asked, a.machine.tools = m₁.tools := by
  induction h with
  | begun => exact ⟨rfl, nofun⟩
  | shown text _ ih => exact ih
  | diagnosed text _ ih => exact ih
  | @noted asked m text _ ih =>
    obtain ⟨files, log, console, hnote⟩ := note_records m text
    rw [hnote]
    exact ih
  | @edited asked m change _ ih =>
    rw [edit, editOr_on]
    cases change m.files m.directory <;> exact ih
  | @started asked m c _ ih =>
    refine ⟨?_, List.forall_mem_append.mpr ⟨ih.2, List.forall_mem_singleton.mpr ih.1⟩⟩
    rw [Command.start_on]
    cases m.tools m.commands c m.directory m.files <;> exact ih.1

/-- The lines that count since `m₁`, against the helpers that have been asked since: `s` successes and
`f` failures have still to be told of. Timings and commits are kept only where `K` holds. -/
structure Balanced (K : Prop) (m₁ : Machine) (s f : Nat) (m : Machine) : Prop where
  of ::
  account : ∃ asked told, Goes m₁ asked m ∧ m.notes = told.reverse ++ m₁.notes ∧
    graphSuccesses asked = graphLines .success told + s ∧
    graphFailures asked + keepingFailures asked = graphLines .error told + f ∧
    ∀ a ∈ asked, a.keeps = true → K

namespace Balanced

variable {K : Prop} {m₁ m : Machine} {s f : Nat}

theorem begun (m : Machine) : Balanced K m 0 0 m :=
  ⟨[], [], .begun, rfl, rfl, rfl, nofun⟩

theorem notes_note (m : Machine) (text : String) :
    ((note text).on m).2.notes = Text.trimEnd text :: m.notes := by
  obtain ⟨files, log, console, hnote⟩ := note_records m text
  rw [hnote]

/-- A message adds the lines of each category that it has. -/
theorem note {s' f' : Nat} {text : String} (h : Balanced K m₁ s f m)
    (hs : s = graphLines .success [Text.trimEnd text] + s')
    (hf : f = graphLines .error [Text.trimEnd text] + f') :
    Balanced K m₁ s' f' ((note text).on m).2 := by
  obtain ⟨asked, told, hgoes, hnotes, hsuccess, hfailure, hkeeps⟩ := h.account
  refine ⟨asked, told ++ [Text.trimEnd text], hgoes.noted text, ?_, ?_, ?_, hkeeps⟩
  · rw [notes_note, hnotes]
    simp
  · rw [Summary.graphLines_append, hsuccess, hs, Nat.add_assoc]
  · rw [Summary.graphLines_append, hfailure, hf, Nat.add_assoc]

theorem unmarked {text : String} (h : Balanced K m₁ s f m) (ht : Unmarked (Text.trimEnd text)) :
    Balanced K m₁ s f ((Regression.note text).on m).2 := by
  have hnone : ∀ c ∈ [Category.error, .success], graphLines c [Text.trimEnd text] = 0 :=
    fun c hc => Summary.graphLines_unmarked ht hc
  exact h.note (by rw [hnone _ (by simp), Nat.zero_add]) (by rw [hnone _ (by simp), Nat.zero_add])

/-- A command adds what its end has to be told of by. -/
theorem start {s' f' : Nat} (h : Balanced K m₁ s f m) (c : Command)
    (hK : (Asking.mk c m).keeps = true → K) (hs : s' = s + graphSuccesses [⟨c, m⟩])
    (hf : f' = f + (graphFailures [⟨c, m⟩] + keepingFailures [⟨c, m⟩])) :
    Balanced K m₁ s' f' (c.start.on m).2 := by
  obtain ⟨asked, told, hgoes, hnotes, hsuccess, hfailure, hkeeps⟩ := h.account
  have hkeeps' : ∀ a ∈ asked ++ [⟨c, m⟩], a.keeps = true → K := by
    intro a ha
    rcases List.mem_append.mp ha with ha | ha
    · exact hkeeps a ha
    · rw [List.mem_singleton.mp ha]
      exact hK
  refine ⟨asked ++ [⟨c, m⟩], told, hgoes.started c, ?_, ?_, ?_, hkeeps'⟩
  · rw [Command.start_on]
    cases m.tools m.commands c m.directory m.files <;> exact hnotes
  · rw [graphSuccesses_append]
    omega
  · rw [graphFailures_append, keepingFailures_append]
    omega

end Balanced

namespace FileTree

/-- A tree in which no name has a newline. -/
def OneLine (t : FileTree) : Prop := ∀ e ∈ t.entries, ∀ s ∈ e.1, Text.OneLine s

variable {t u : FileTree}

theorem OneLine.of_outline (h : t.OneLine) (hu : u.outline = t.outline) : u.OneLine := by
  intro e he
  have hmem : (e.1, e.2.outline) ∈ u.outline.entries :=
    List.mem_map_of_mem (f := fun e : Location × Node => (e.1, e.2.outline)) he
  rw [hu] at hmem
  obtain ⟨e', he', hsame⟩ := List.mem_map.mp hmem
  rw [← (Prod.mk.inj hsame).1]
  exact h e' he'

/-- What is written makes no name. -/
theorem OneLine.write {hd hd' : Handle} {bytes : Text.Bytes} (h : t.OneLine)
    (hwrite : t.write hd bytes = .ok (u, hd')) : u.OneLine := by
  cases hd with
  | file serial offset =>
    cases offset with
    | none =>
      cases hwrite
      exact h.of_outline (outline_mapContents ..)
    | some n =>
      cases hwrite
      exact h.of_outline (outline_mapContents ..)
  | device d =>
    simp only [FileTree.write] at hwrite
    split at hwrite
    · next room hroom =>
      split at hwrite
      · cases hwrite
        refine List.forall_mem_cons.mpr ⟨h (d, .device (some room)) (mem_of_node? hroom), fun e he => ?_⟩
        exact h e (List.mem_of_mem_filter he)
      · cases hwrite
    · cases hwrite
      exact h

/-- Nor has what is listed. -/
theorem OneLine.list {cwd : Location} {p : Path} {entries : List (String × Node)} (h : t.OneLine)
    (hlist : t.list cwd p = .ok entries) : ∀ e ∈ entries, Text.OneLine e.1 := by
  obtain ⟨l, rfl⟩ := list_ok hlist
  intro e he
  exact h _ (mem_children.mp he) e.1 List.mem_cons_self

end FileTree

/-- Tools that print no line with a mark. -/
def Tools.Discreet (tools : Tools) : Prop :=
  ∀ earlier c cwd files ended, tools earlier c cwd files = .ok ended →
    Unmarked (Text.decodeLossy ended.joined) ∧ Unmarked (Text.decodeLossy (ended.on .output))

/-- Changes none of which has made a name with a newline. -/
def Tidy (changes : List Change) : Prop := ∀ ch ∈ changes, ch.after.OneLine

/-- What a session that only makes graphs has come to, `base` having been its changes before: as long
as no change has made a name with a newline, there is none, and the lines that count are balanced. -/
structure Faring (K : Prop) (m₁ : Machine) (base : List Change) (s f : Nat) (m : Machine) : Prop where
  tools : m.tools = m₁.tools
  since : base <:+ m.changes
  fair : Tidy m.changes → m.files.OneLine ∧ Balanced K m₁ s f m

namespace Faring

variable {K : Prop} {m₁ m : Machine} {base : List Change} {s f s' f' : Nat}

theorem begun (h : m.files.OneLine) : Faring K m m.changes 0 0 m :=
  ⟨rfl, List.suffix_rfl, fun _ => ⟨h, .begun m⟩⟩

theorem tidy (h : Faring K m₁ base s f m) (htidy : Tidy m.changes) : Tidy base :=
  fun ch hch => htidy ch (h.since.subset hch)

/-- All changes so far may count as those before. -/
theorem rebase (h : Faring K m₁ base s f m) : Faring K m₁ m.changes s f m :=
  ⟨h.tools, List.suffix_rfl, h.fair⟩

theorem unbase {base' : List Change} (h : Faring K m₁ base s f m) (hbase : base' <:+ base) :
    Faring K m₁ base' s f m :=
  ⟨h.tools, hbase.trans h.since, h.fair⟩

theorem shown (h : Faring K m₁ base s f m) (text : String) :
    Faring K m₁ base s f { m with console := text } := by
  refine ⟨h.tools, h.since, fun htidy => (h.fair htidy).imp_right fun hbalanced => ?_⟩
  obtain ⟨asked, told, hgoes, hrest⟩ := hbalanced.account
  exact ⟨asked, told, hgoes.shown text, hrest⟩

theorem diagnosed (h : Faring K m₁ base s f m) (text : String) :
    Faring K m₁ base s f { m with diagnostics := text } := by
  refine ⟨h.tools, h.since, fun htidy => (h.fair htidy).imp_right fun hbalanced => ?_⟩
  obtain ⟨asked, told, hgoes, hrest⟩ := hbalanced.account
  exact ⟨asked, told, hgoes.diagnosed text, hrest⟩

theorem edit (h : Faring K m₁ base s f m) (change : FileTree → Location → Except Fault FileTree) :
    Faring K m₁ base s f ((Regression.edit change).on m).2 := by
  have hgoes : ∀ asked, Goes m₁ asked m → Goes m₁ asked ((Regression.edit change).on m).2 :=
    fun _ hgoes => hgoes.edited change
  rw [Regression.edit, editOr_on] at hgoes ⊢
  cases hchange : change m.files m.directory with
  | error fault => exact h
  | ok files =>
    rw [hchange] at hgoes
    refine ⟨h.tools, h.since.trans (List.suffix_cons _ _), fun htidy => ?_⟩
    obtain ⟨hafter, hbefore⟩ := List.forall_mem_cons.mp htidy
    obtain ⟨asked, told, hgone, hrest⟩ := (h.fair hbefore).2.account
    exact ⟨hafter, asked, told, hgoes asked hgone, hrest⟩

/-- A message that brings the balance from one state to another. -/
theorem tell (h : Faring K m₁ base s f m) (text : String)
    (hbalanced : Tidy base → Balanced K m₁ s f m → Balanced K m₁ s' f' ((note text).on m).2) :
    Faring K m₁ base s' f' ((note text).on m).2 := by
  obtain ⟨files, log, console, hnote⟩ := note_records m text
  have hwrites := note_writes m text
  rw [hnote] at hwrites hbalanced ⊢
  refine ⟨h.tools, h.since, fun htidy => ?_⟩
  obtain ⟨hfiles, hfair⟩ := h.fair htidy
  refine ⟨?_, hbalanced (h.tidy htidy) hfair⟩
  rcases hwrites with hsame | ⟨hd, hd', hwrite⟩
  · rw [hsame]
    exact hfiles
  · exact hfiles.write hwrite

theorem note (h : Faring K m₁ base s f m) {text : String} (ht : Tidy base → Unmarked text) :
    Faring K m₁ base s f ((Regression.note text).on m).2 :=
  h.tell text fun htidy hbalanced => hbalanced.unmarked (ht htidy).trimEnd

theorem start (h : Faring K m₁ base s f m) (c : Command) (hK : (Asking.mk c m).keeps = true → K)
    (hs : s' = s + graphSuccesses [⟨c, m⟩])
    (hf : f' = f + (graphFailures [⟨c, m⟩] + keepingFailures [⟨c, m⟩])) :
    Faring K m₁ base s' f' (c.start.on m).2 := by
  have hbalanced : Balanced K m₁ s f m → Balanced K m₁ s' f' (c.start.on m).2 := fun hfair =>
    hfair.start c hK hs hf
  rw [Command.start_on] at hbalanced ⊢
  cases htool : m.tools m.commands c m.directory m.files with
  | error fault =>
    rw [htool] at hbalanced
    exact ⟨h.tools, h.since, fun htidy => (h.fair htidy).imp_right hbalanced⟩
  | ok ended =>
    rw [htool] at hbalanced
    refine ⟨h.tools, h.since.trans (List.suffix_cons _ _), fun htidy => ?_⟩
    obtain ⟨hafter, hbefore⟩ := List.forall_mem_cons.mp htidy
    exact ⟨hafter, hbalanced (h.fair hbefore).2⟩

/-- A tool whose end is not told of. -/
def Aside (c : Command) : Prop :=
  c.tool ∉ ["genGraphs", "combineCompPerfData", "computePerfStats"]

theorem start_aside (h : Faring K m₁ base s f m) {c : Command} (hc : Aside c) :
    Faring K m₁ base s f (c.start.on m).2 := by
  have hnot : c.tool ≠ "genGraphs" ∧ c.tool ≠ "combineCompPerfData" ∧ c.tool ≠ "computePerfStats" := by
    simpa [Aside] using hc
  have hgraphs : (Asking.mk c m).graphs = false := beq_eq_false_iff_ne.mpr hnot.1
  have hkeeps : (Asking.mk c m).keeps = false := by simp [Asking.keeps, hnot.2]
  exact h.start c (by simp [hkeeps]) (by simp [graphSuccesses, hgraphs])
    (by simp [graphFailures, keepingFailures, hgraphs, hkeeps])

theorem starting : Starting Aside (Faring K m₁ base s f) :=
  ⟨fun _ text hm => hm.shown text, fun _ text hm => hm.diagnosed text,
    fun _ _ hc hm => hm.start_aside hc⟩

/-- What is listened to when a command is captured. -/
theorem captured (c : Command) (showDiagnostics : Bool)
    (hnext : Faring K m₁ base s f (c.start.on m).2) :
    Faring K m₁ base s f ((attempt (c.captureWith showDiagnostics)).on m).2 := by
  rw [attempt_on, Command.captureWith, Job.on_bind]
  cases hstart : c.start.on m with
  | mk result m' =>
    rw [hstart] at hnext
    cases result with
    | error e => exact hnext
    | ok ended =>
      cases showDiagnostics with
      | true =>
        simp only [↓reduceIte, Job.on_bind, Job.on_modify]
        split <;> exact hnext.diagnosed _
      | false =>
        simp only [Bool.false_eq_true, ↓reduceIte]
        split <;> exact hnext

end Faring

end Regression
