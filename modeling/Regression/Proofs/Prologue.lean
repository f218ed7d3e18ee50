import Regression.Proofs.LastingSetup
import Regression.Proofs.Launching
import Regression.Proofs.Reckoning

namespace Regression

open Text (Foreign OneLine Unmarked UnmarkedBelow)

/-- The variables that name the machine and the directories of the performance data. -/
def Context.placeNames : List String :=
  ["CHPL_TEST_PERF_CONFIG_NAME", "HOSTNAME", "CHPL_TEST_PERF_DIR", "CHPL_TEST_COMP_PERF_DIR"]

/-- A context in which none of these has a newline. -/
def Context.Named (c : Context) : Prop :=
  ∀ name ∈ Context.placeNames, ∀ value ∈ c.get? name, OneLine value

/-- Options that show no newline. -/
structure Settings.Legible (o : Settings) : Prop where
  compiler : ∀ p ∈ o.compiler, OneLine p.text
  compopts : ∀ word ∈ o.compopts, OneLine word
  execopts : ∀ word ∈ o.execopts, OneLine word
  launchCmd : ∀ words ∈ o.launchCmd, OneLine words
  memLeaksLog : ∀ p ∈ o.memLeaksLog, OneLine p.text
  preexec : ∀ p ∈ o.preexec, OneLine p.text
  prediff : ∀ p ∈ o.prediff, OneLine p.text
  perfLabel : OneLine o.perfLabel
  performanceDescription : OneLine o.performanceDescription

/-- A setup that shows no newline of its own. -/
structure Setup.Legible (s : Setup) : Prop where
  settings : s.settings.Legible
  cwd : OneLine s.cwd.text
  home : OneLine s.layout.home.text
  logsDirectory : OneLine s.layout.logsDirectory.text
  logFile : OneLine s.files.logFile.text
  toolchain : ∀ b ∈ s.toolchain.values.bindings, OneLine b.2

/-- A plan whose directories show no newline, and that keeps timings only where that is asked for. -/
structure PerfPlan.Legible (o : Settings) (plan : PerfPlan) : Prop where
  graphs : ∀ g ∈ plan.graphs, OneLine g.perfDirectory.text ∧ OneLine g.description
  compiler : ∀ k ∈ plan.compiler, OneLine k.datDirectory.text ∧ OneLine k.htmlDirectory.text
  keeping : plan.compiler.isSome → o.compPerformance = true

theorem Environment.mem_of_get? {e : Environment} {name value : String}
    (h : e.get? name = some value) : (name, value) ∈ e.bindings := by
  obtain ⟨before, after, hbindings, -⟩ := List.lookup_eq_some_iff.mp h
  rw [hbindings]
  exact List.mem_append_right _ List.mem_cons_self

theorem Toolchain.oneLine_firstOf {t : Toolchain} (h : ∀ b ∈ t.values.bindings, OneLine b.2)
    (names : List String) : OneLine (t.firstOf names) := by
  rw [firstOf]
  cases hfound : names.findSome? t.get? with
  | none => exact (by decide : OneLine "none")
  | some value =>
    obtain ⟨name, -, hget⟩ := List.exists_of_findSome?_eq_some hfound
    exact h _ (Environment.mem_of_get? hget)

namespace Setup

variable {α β : Type} {K : Prop} {m₁ : Machine} {base : List Change} {s : Setup}

/-- What setup keeps, of the context that it fills in and of the machine. -/
def Poised (K : Prop) (m₁ : Machine) (base : List Change) (c : Context) (m : Machine) : Prop :=
  c.Named ∧ Faring K m₁ base 0 0 m

/-- A step of setup that ends, where it answers, with the balance that it began with. -/
abbrev Quiet (K : Prop) (m₁ : Machine) (base : List Change) (x : Arranging α) : Prop :=
  Holds (Poised K m₁ base) (fun _ _ => True) x

namespace Quiet

theorem lift {j : Job α} (h : Faring.Steady K m₁ base (fun _ _ => True) j) :
    Quiet K m₁ base (liftM j) :=
  Clears.lift fun _ => ⟨fun hm hon => ⟨hm.1, h.ok hm.2 hon⟩, fun hm hon => h.error hm.2 hon⟩

theorem note {text : String} (ht : Unmarked text) : Quiet K m₁ base (liftM (Regression.note text)) :=
  lift (Faring.notes fun _ => ht)

/-- A message that shows something between a head and a tail. -/
theorem shows {head shown tail : String} (h : Foreign head ∧ OneLine head ∧ OneLine tail)
    (hshown : OneLine shown) : Quiet K m₁ base (liftM (Regression.note (head ++ shown ++ tail))) :=
  note (Foreign.shows h hshown)

/-- A message that shows nothing. -/
theorem plain {text : String} (h : Foreign text ∧ OneLine text) :
    Quiet K m₁ base (liftM (Regression.note text)) :=
  note (h.1.unmarked h.2.unmarkedBelow)

theorem say (line : String) : Quiet K m₁ base (liftM (liftM (Regression.say line) : Job Unit)) :=
  lift (Faring.saying line)

theorem removeFile (p : Path) : Quiet K m₁ base (liftM (Regression.removeFile p)) :=
  lift (Faring.edits _)

theorem provide {name value : String} (h : name ∈ Context.placeNames → OneLine value) :
    Quiet K m₁ base (Setup.provide name value) := by
  refine Clears.modify fun c m hm => ⟨fun name' hname' value' hvalue' => ?_, hm.2⟩
  rw [Context.get?, Context.set, Environment.get?_set] at hvalue'
  split at hvalue'
  · next hsame =>
    cases hvalue'
    exact h (hsame ▸ hname')
  · exact hm.1 name' hname' value' hvalue'

/-- A variable of which no path or name is made. -/
theorem sets {name : String} (h : name ∉ Context.placeNames) (value : String) :
    Quiet K m₁ base (Setup.provide name value) :=
  provide fun hname => absurd hname h

theorem bound {name : String} (h : name ∈ Context.placeNames) :
    Clears (Poised K m₁ base) (fun _ _ => True) (Setup.bound? name) fun value c m =>
      Poised K m₁ base c m ∧ ∀ text ∈ value, OneLine text :=
  Clears.get.bind fun _ => Clears.pure fun _ _ hm => ⟨hm.1, hm.2 ▸ hm.1.1 name h⟩

theorem named : Clears (Poised K m₁ base) (fun _ _ => True) get fun seen c m =>
    Poised K m₁ base c m ∧ seen.Named :=
  Clears.get.mono fun _ _ _ hm => ⟨hm.1, hm.2 ▸ hm.1.1⟩

/-- A tool that is listened to, and what it prints. -/
theorem asks (htools : m₁.tools.Discreet) {d : Command} (hd : Faring.Aside d) :
    Clears (Poised K m₁ base) (fun _ _ => True)
      (liftM (liftM (attempt d.captureQuiet) : Job (Option String))) fun output c m =>
        Poised K m₁ base c m ∧ ∀ text ∈ output, Unmarked text := by
  have hask : Job.Clears (Faring K m₁ base 0 0) (fun _ _ => True) (liftM (attempt d.captureQuiet))
      fun output m => Faring K m₁ base 0 0 m ∧ ∀ text ∈ output, Unmarked text :=
    Faring.asks htools hd false
  exact Clears.lift fun _ => ⟨fun hm hon => ⟨⟨hm.1, (hask.ok hm.2 hon).1⟩, (hask.ok hm.2 hon).2⟩,
    fun hm hon => hask.error hm.2 hon⟩

theorem git (htools : m₁.tools.Discreet) (cwd : Path) (arguments : List String) :
    Clears (Poised K m₁ base) (fun _ _ => True) (Setup.git cwd arguments) fun output c m =>
      Poised K m₁ base c m ∧ ∀ text ∈ output, UnmarkedBelow text := by
  unfold Setup.git
  refine Clears.context.after fun c => ?_
  have hgit : Faring.Aside
      { program := "git", arguments, environment := c.scope none, directory := some cwd } := by
    rw [Faring.Aside, Command.tool_single (s := "git") rfl (by decide) (by decide)]
    decide
  refine Clears.knowing (asks htools hgit) fun output houtput => Clears.pure fun _ _ hm => ⟨hm, ?_⟩
  intro _ htrimmed
  obtain ⟨text, htext, rfl⟩ := Option.map_eq_some_iff.mp htrimmed
  exact (houtput text htext).below.trim

theorem firstLineOf (htools : m₁.tools.Discreet) {program : String}
    (hp : program ∈ ["which", "valgrind", "uname"]) (arguments : List String) :
    Clears (Poised K m₁ base) (fun _ _ => True) (Setup.firstLineOf program arguments)
      fun output c m => Poised K m₁ base c m ∧ ∀ text ∈ output, OneLine text := by
  unfold Setup.firstLineOf
  refine Clears.context.after fun c => ?_
  have haside : Faring.Aside { program, arguments, environment := c.scope none } := by
    have hspelt : ∀ name ∈ ["which", "valgrind", "uname"], '/' ∉ name.toList ∧ name ≠ "" ∧
        name ∉ ["genGraphs", "combineCompPerfData", "computePerfStats"] := by decide
    obtain ⟨hs, hf, haside⟩ := hspelt program hp
    rwa [Faring.Aside, Command.tool_single rfl hs hf]
  refine Clears.knowing (asks htools haside) fun output _ => Clears.pure fun _ _ hm => ⟨hm, ?_⟩
  intro line hline
  obtain ⟨text, -, hfirst⟩ := Option.bind_eq_some_iff.mp hline
  exact Text.newline_not_mem_lines (List.mem_of_head? hfirst)

/-- The answer is known to have no newline. -/
abbrev Answers (K : Prop) (m₁ : Machine) (base : List Change) (x : Arranging String) : Prop :=
  Clears (Poised K m₁ base) (fun _ _ => True) x fun value c m =>
    Poised K m₁ base c m ∧ OneLine value

theorem oneLine_execoptsValue {o : Settings} (h : o.Legible) {log : Option Path}
    (hlog : ∀ p ∈ log, OneLine p.text) : OneLine (o.execoptsValue log) := by
  have hwords : OneLine (String.intercalate " " o.execopts) :=
    Text.oneLine_intercalate (by decide) h.execopts
  unfold Settings.execoptsValue
  rw [Text.oneLine_append, Text.oneLine_append]
  refine ⟨⟨hwords, ?_⟩, ?_⟩
  · split <;> decide
  · cases log with
    | none => exact (by decide : OneLine "")
    | some p => exact Text.oneLine_append.mpr ⟨by decide, hlog p rfl⟩

theorem optionVariables (h : s.Legible) : Answers K m₁ base s.optionVariables := by
  unfold Setup.optionVariables
  extract_lets o leaksLog last trials timeout stdin compOnly leaks
  have hlog : ∀ p ∈ leaksLog, OneLine p.text := by
    intro _ hmapped
    obtain ⟨p, hp, rfl⟩ := Option.map_eq_some_iff.mp hmapped
    exact Path.oneLine_div h.cwd (h.settings.memLeaksLog p hp)
  clear_value leaksLog
  have hlast : ∀ u, Answers K m₁ base (last u) := fun _ =>
    Clears.pure fun _ _ hm => ⟨hm, oneLine_execoptsValue h.settings hlog⟩
  have htrials : ∀ u, Answers K m₁ base (trials u) := by
    intro u
    refine (sets (by decide) _).after fun _ => ?_
    split
    · exact (sets (by decide) _).after hlast
    · exact hlast ()
  have htimeout : ∀ u, Answers K m₁ base (timeout u) := by
    intro u
    simp only [timeout]
    split
    · exact (sets (by decide) _).after htrials
    · exact htrials ()
  have hstdin : ∀ u, Answers K m₁ base (stdin u) := by
    intro u
    simp only [stdin]
    split
    · refine (sets (by decide) _).after fun _ => ?_
      split
      · exact (sets (by decide) _).after htimeout
      · exact htimeout ()
    · exact htimeout ()
  have hcompOnly : ∀ u, Answers K m₁ base (compOnly u) := fun u =>
    Clears.whether (sets (by decide) _) (hstdin u)
  have hleaks : ∀ u, Answers K m₁ base (leaks u) := by
    intro u
    simp only [leaks]
    cases leaksLog with
    | none => exact hcompOnly ()
    | some p =>
      refine Clears.world.after fun m => ?_
      split
      · refine (shows (by decide) (hlog p rfl)).after fun _ => ?_
        exact (removeFile _).after hcompOnly
      · exact hcompOnly ()
  exact Clears.whether (sets (by decide) _) (hleaks ())

theorem valgrind (htools : m₁.tools.Discreet) : Quiet K m₁ base s.valgrind := by
  unfold Setup.valgrind
  extract_lets o quiet threads
  have hquiet : ∀ u, Quiet K m₁ base (quiet u) := by
    intro u
    refine (sets (by decide) _).after fun _ => ?_
    split
    · exact Clears.given _
    · exact Clears.throw fun _ _ _ => trivial
  have hthreads : ∀ u, Quiet K m₁ base (threads u) := by
    intro u
    refine Clears.either ?_ (Clears.given _)
    refine (Clears.bound _).after fun value => ?_
    split
    · exact (sets (by decide) _).after hquiet
    · exact (plain (by decide)).after hquiet
  split
  · refine (plain (by decide)).after fun _ => ?_
    refine Clears.knowing (firstLineOf htools (by decide) _) fun binary hbinary => ?_
    split
    · next path =>
      refine Clears.knowing (firstLineOf htools (by decide) _) fun version hversion => ?_
      refine (shows (by decide) (hbinary _ rfl)).after fun _ => ?_
      have hshown : OneLine (version.getD "") := by
        cases version with
        | none => decide
        | some text => exact hversion text rfl
      refine (shows (by decide) hshown).after fun _ => ?_
      refine (sets (by decide) _).after fun _ => ?_
      exact (sets (by decide) _).after hthreads
    · exact Clears.after (Clears.throw fun _ _ _ => trivial) hthreads
  · refine (sets (by decide) _).after fun _ => ?_
    split
    · refine (plain (by decide)).after fun _ => ?_
      exact (sets (by decide) _).after hthreads
    · refine (plain (by decide)).after fun _ => ?_
      exact (sets (by decide) _).after hthreads

/-- What git printed follows on one line what the session says of it. -/
theorem unmarked_git {branch commit : String} (hbranch : UnmarkedBelow branch)
    (hcommit : UnmarkedBelow commit) :
    Unmarked ("[git branch: '" ++ branch ++ "' (" ++ commit ++ ")]") := by
  have hopen : UnmarkedBelow ("[git branch: '" ++ branch) :=
    OneLine.unmarkedBelow (by decide) |>.append hbranch (.inl (by decide))
  have hclose : UnmarkedBelow ("' (" ++ commit) :=
    OneLine.unmarkedBelow (by decide) |>.append hcommit (.inl (by decide))
  have hends : UnmarkedBelow ("' (" ++ commit ++ ")]") :=
    hclose.append (OneLine.unmarkedBelow (by decide)) (.inr (by decide))
  have hforeign : Foreign ("[git branch: '" ++ branch) := Foreign.append (by decide) _
  have hjoins : Text.Joins ("' (" ++ commit ++ ")]") := by
    intro c hc
    rw [String.append_assoc, String.toList_append] at hc
    cases hc
    decide
  have hwhole := (hforeign.unmarked hopen).append hends hjoins
  rwa [← String.append_assoc, ← String.append_assoc] at hwhole

theorem general (htools : m₁.tools.Discreet) (h : s.Legible) : Quiet K m₁ base s.general := by
  unfold Setup.general
  extract_lets rest
  have hrest : ∀ u, Quiet K m₁ base (rest u) := by
    intro u
    refine (shows (by decide) h.cwd).after fun _ => ?_
    refine (shows (by decide) h.logsDirectory).after fun _ => ?_
    refine (shows (by decide) h.logFile).after fun _ => ?_
    refine (shows (by decide) h.home).after fun _ => ?_
    refine (shows (by decide) (Toolchain.oneLine_firstOf h.toolchain _)).after fun _ => ?_
    exact (shows (by decide) (Toolchain.oneLine_firstOf h.toolchain _)).after fun _ =>
      valgrind htools
  refine Clears.world.after fun m => ?_
  refine (shows (by decide) (Clock.oneLine_runStamp _)).after fun _ => ?_
  refine Clears.knowing (git htools _ _) fun branch hbranch => ?_
  refine Clears.knowing (git htools _ _) fun commit hcommit => ?_
  have hshown : ∀ output : Option String, (∀ text ∈ output, UnmarkedBelow text) →
      UnmarkedBelow (output.getD "unknown") := by
    intro output houtput
    cases output with
    | none => exact OneLine.unmarkedBelow (by decide)
    | some text => exact houtput text rfl
  refine (note (unmarked_git (hshown _ hbranch) (hshown _ hcommit))).after fun _ => ?_
  refine Clears.world.after fun m' => ?_
  split
  · exact (say _).after hrest
  · exact hrest ()

theorem performanceFlags (h : s.Legible) : Quiet K m₁ base s.performanceFlags := by
  unfold Setup.performanceFlags
  extract_lets o trials compPerformance label
  have hswitch : ∀ on, OneLine (switchText on) := by decide
  have htrials : ∀ u, Quiet K m₁ base (trials u) := by
    intro u
    refine (shows (by decide) (Text.oneLine_nat _)).after fun _ => ?_
    refine (shows (by decide) (hswitch _)).after fun _ => ?_
    refine Clears.either ?_ (Clears.given _)
    refine (shows (by decide) (hswitch _)).after fun _ => ?_
    refine shows (by decide) ?_
    cases o.graphsGenDefault <;> decide
  have hcomp : ∀ u, Quiet K m₁ base (compPerformance u) := fun u =>
    (shows (by decide) (hswitch _)).after fun _ =>
      Clears.whether (sets (by decide) _) (htrials u)
  have hlabel : ∀ u, Quiet K m₁ base (label u) := fun _ => (sets (by decide) _).after hcomp
  refine (shows (by decide) (hswitch _)).after fun _ => ?_
  split
  · refine (sets (by decide) _).after fun _ => ?_
    split
    · exact (shows (by decide) h.settings.perfLabel).after hlabel
    · exact hlabel ()
  · exact hcomp ()

theorem oneLine_compilerPath (h : s.Legible) : OneLine s.compilerPath.text := by
  unfold Setup.compilerPath
  split
  · next p hp => exact Path.oneLine_div h.cwd (h.settings.compiler p hp)
  · refine Path.oneLine_div (Path.oneLine_div (Path.oneLine_div h.home (by decide)) ?_) (by decide)
    unfold Toolchain.hostBinSubdirectory
    split
    · next value hvalue => exact h.toolchain _ (Environment.mem_of_get? hvalue)
    · exact Text.oneLine_append.mpr ⟨Text.oneLine_append.mpr
        ⟨Toolchain.oneLine_firstOf h.toolchain _, by decide⟩,
        Toolchain.oneLine_firstOf h.toolchain _⟩

theorem oneLine_compoptsValue {o : Settings} (h : o.Legible) : OneLine o.compoptsValue := by
  unfold Settings.compoptsValue
  rw [Text.oneLine_append, Text.oneLine_append]
  refine ⟨⟨?_, by decide⟩, Text.oneLine_join ?_⟩
  · split <;> decide
  · intro _ hmapped
    obtain ⟨word, hword, rfl⟩ := List.mem_map.mp hmapped
    exact Text.oneLine_append.mpr ⟨by decide, h.compopts word hword⟩

theorem programs (h : s.Legible) {execopts : String} (hexec : OneLine execopts) :
    Quiet K m₁ base (s.programs execopts) := by
  unfold Setup.programs
  extract_lets o compiler launchCmd rest
  have hlaunch : OneLine launchCmd := by
    simp only [launchCmd]
    cases hgiven : o.launchCmd with
    | none => exact (by decide : OneLine "")
    | some words => exact h.settings.launchCmd words hgiven
  have hrest : ∀ u, Quiet K m₁ base (rest u) := by
    intro u
    refine (shows (by decide) (oneLine_compilerPath h)).after fun _ => ?_
    refine Clears.after (Clears.modify fun _ _ hm => hm) fun _ => ?_
    refine (shows (by decide) (oneLine_compoptsValue h.settings)).after fun _ => ?_
    refine (sets (by decide) _).after fun _ => ?_
    refine (shows (by decide) hexec).after fun _ => ?_
    refine (sets (by decide) _).after fun _ => ?_
    refine (shows (by decide) hlaunch).after fun _ => ?_
    exact Clears.context.after fun _ => sets (by decide) _
  refine Clears.world.after fun m => ?_
  split
  · exact Clears.after (Clears.throw fun _ _ _ => trivial) hrest
  · exact hrest ()

theorem configuration (h : s.Legible) : Quiet K m₁ base s.configuration := by
  unfold Setup.configuration
  have hvalue := Toolchain.oneLine_firstOf h.toolchain
  refine (shows (by decide) (hvalue _)).after fun _ => ?_
  refine (sets (by decide) _).after fun _ => ?_
  refine (sets (by decide) _).after fun _ => ?_
  refine (sets (by decide) _).after fun _ => ?_
  refine (shows (by decide) (hvalue _)).after fun _ => ?_
  refine (sets (by decide) _).after fun _ => ?_
  refine (shows (by decide) (hvalue _)).after fun _ => ?_
  refine (sets (by decide) _).after fun _ => ?_
  refine (sets (by decide) _).after fun _ => ?_
  exact sets (by decide) _

theorem launching (launcher : String) : Quiet K m₁ base (Setup.launching launcher) := by
  unfold Setup.launching
  extract_lets queued timeout
  have hqueued : ∀ u, Quiet K m₁ base (queued u) := fun _ =>
    Clears.either (sets (by decide) _) (Clears.given _)
  have htimeout : ∀ u, Quiet K m₁ base (timeout u) := by
    intro u
    refine (Clears.filled _).after fun set => ?_
    refine (Clears.filled _).after fun unwanted => ?_
    exact Clears.either (Clears.whether (sets (by decide) _) (hqueued u)) (Clears.given _)
  refine (Clears.filled _).after fun redirected => ?_
  refine (Clears.filled _).after fun forced => ?_
  split
  · refine (say _).after fun _ => ?_
    exact (sets (by decide) _).after htimeout
  · exact htimeout ()

theorem locales : Quiet K m₁ base s.locales := by
  unfold Setup.locales
  extract_lets o comm count multilocale most
  have hmultilocale : ∀ u, Quiet K m₁ base (multilocale u) := fun _ =>
    Clears.either (Clears.either (sets (by decide) _) (plain (by decide))) (Clears.given _)
  have hmost : ∀ u, Quiet K m₁ base (most u) := by
    intro u
    refine (sets (by decide) _).after fun _ => ?_
    split
    · exact (plain (by decide)).after hmultilocale
    · refine (shows (by decide) (Text.oneLine_nat _)).after fun _ => ?_
      exact (sets (by decide) _).after hmultilocale
  split
  · exact (plain (by decide)).after hmost
  · exact (shows (by decide) (Text.oneLine_nat _)).after hmost

theorem systemScripts {cwd : Path} (hcwd : OneLine cwd.text) (role : ScriptRole)
    (scripts : List Path) (hscripts : ∀ p ∈ scripts, OneLine p.text) :
    Faring.Steady K m₁ base (fun _ _ => True) (Setup.systemScripts cwd role scripts) := by
  induction scripts with
  | nil => exact Job.Clears.pure fun _ hm => hm
  | cons script rest ih =>
    obtain ⟨hscript, hrest⟩ := List.forall_mem_cons.mp hscripts
    have hhead : Foreign ("[system-wide " ++ role.text ++ ": ") ∧
        OneLine ("[system-wide " ++ role.text ++ ": ") ∧ OneLine "]" := by
      cases role <;> decide
    rw [Setup.systemScripts]
    refine Job.Clears.get.bind fun m => ?_
    refine Job.Clears.before ?_ fun _ hm => hm.1
    have hend : Faring.Steady K m₁ base (fun _ _ => True) (do
        Regression.note ("[system-wide " ++ role.text ++ ": " ++ (cwd / script.text).text ++ "]")
        return (cwd / script.text) :: (← Setup.systemScripts cwd role rest)) := by
      refine (Faring.notes fun _ => Foreign.shows hhead (Path.oneLine_div hcwd hscript)).bind fun _ => ?_
      exact (ih hrest).bind fun _ => Job.Clears.pure fun _ hm => hm
    split
    · refine Job.Clears.bind ?_ fun _ => hend
      exact Job.Clears.throw fun _ _ => trivial
    · exact hend

theorem systemWide (h : s.Legible) : Quiet K m₁ base s.systemWide := by
  unfold Setup.systemWide
  extract_lets o rest
  have hrest : ∀ u, Quiet K m₁ base (rest u) := by
    intro u
    refine (lift (systemScripts h.cwd _ _ h.settings.prediff)).after fun asked => ?_
    exact Clears.either (sets (by decide) _) (Clears.given _)
  split
  · refine (lift (systemScripts h.cwd _ _ h.settings.preexec)).after fun scripts => ?_
    exact (sets (by decide) _).after hrest
  · exact hrest ()

theorem executables (h : s.Legible) {execopts : String} (hexec : OneLine execopts) :
    Quiet K m₁ base (s.executables execopts) := by
  unfold Setup.executables
  refine (programs h hexec).after fun _ => ?_
  refine (configuration h).after fun _ => ?_
  refine (launching _).after fun _ => ?_
  exact locales.after fun _ => systemWide h

theorem oneLine_filled {c : Context} (hc : c.Named) {name value : String}
    (hname : name ∈ Context.placeNames) (h : c.environment.getFilled? name = some value) :
    ∀ text ∈ some value, OneLine text := by
  rintro _ ⟨⟩
  exact hc name hname value (Option.filter_eq_some_iff.mp h).1

theorem perfTestName (htools : m₁.tools.Discreet) : Answers K m₁ base Setup.perfTestName := by
  unfold Setup.perfTestName
  have hshort : ∀ host : String, OneLine host →
      OneLine (Text.lower (String.ofList (host.toList.takeWhile (· ≠ '.')))) := fun host hhost =>
    Text.oneLine_lower (Text.oneLine_ofList.mpr fun hmem =>
      hhost (List.takeWhile_subset _ hmem))
  refine Clears.knowing (bound (by decide)) fun name hname => ?_
  cases name with
  | some name => exact Clears.pure fun _ _ hm => ⟨hm, hname name rfl⟩
  | none =>
    refine Clears.knowing named fun c hc => ?_
    extract_lets rest
    have hrest : ∀ host : Option String, (∀ text ∈ host, OneLine text) →
        Answers K m₁ base (rest host) := by
      refine fun host hhost => Clears.pure fun _ _ hm => ⟨hm, ?_⟩
      cases host with
      | none => exact hshort _ (by decide)
      | some text => exact hshort _ (hhost text rfl)
    cases hfilled : c.environment.getFilled? "HOSTNAME" with
    | some host => exact hrest (some host) (oneLine_filled hc (by decide) hfilled)
    | none => exact Clears.knowing (firstLineOf htools (by decide) _) hrest

theorem planGraphs (htools : m₁.tools.Discreet) (h : s.Legible) :
    Clears (Poised K m₁ base) (fun _ _ => True) s.planGraphs fun g c m =>
      Poised K m₁ base c m ∧ OneLine g.perfDirectory.text ∧ OneLine g.description := by
  unfold Setup.planGraphs
  refine Clears.knowing (perfTestName htools) fun name hname => ?_
  refine Clears.knowing named fun c hc => ?_
  extract_lets description rest directory
  have hrest : ∀ perfDirectory : Path, OneLine perfDirectory.text →
      Clears (Poised K m₁ base) (fun _ _ => True) (rest perfDirectory) fun g c m =>
        Poised K m₁ base c m ∧ OneLine g.perfDirectory.text ∧ OneLine g.description :=
    fun perfDirectory hperf => Clears.whether (sets (by decide) _)
      (Clears.pure fun _ _ hm => ⟨hm, hperf, h.settings.performanceDescription⟩)
  have hdirectory : OneLine directory.text :=
    Path.oneLine_div (Path.oneLine_div (Path.oneLine_div h.home (by decide)) (by decide)) hname
  cases hfilled : c.environment.getFilled? "CHPL_TEST_PERF_DIR" with
  | some text => exact hrest ⟨text⟩ (oneLine_filled hc (by decide) hfilled text rfl)
  | none =>
    refine (provide fun _ => hdirectory).after fun _ => ?_
    refine (shows (by decide) hdirectory).after fun _ => ?_
    exact hrest directory hdirectory

theorem startTimings (tmp datDirectory : Path) (testName : String) :
    Job.Clears (Faring K m₁ base 0 0) (fun _ _ => True) (CompilerPerf.start tmp datDirectory testName)
      fun k m => Faring K m₁ base 0 0 m ∧ k.datDirectory = datDirectory ∧
        k.htmlDirectory = datDirectory / "html" := by
  unfold CompilerPerf.start
  extract_lets tempDatDirectory last
  have hlast : ∀ u, Job.Clears (Faring K m₁ base 0 0) (fun _ _ => True) (last u) fun k m =>
      Faring K m₁ base 0 0 m ∧ k.datDirectory = datDirectory ∧
        k.htmlDirectory = datDirectory / "html" := fun _ =>
    Job.Clears.get.bind fun _ => Job.Clears.pure fun _ hm => ⟨hm.1, rfl, rfl⟩
  refine (Job.Clears.get.mono fun _ _ hm => hm.1).bind fun m => ?_
  split
  · exact (Faring.edits _).bind hlast
  · exact hlast ()

theorem planCompiler (htools : m₁.tools.Discreet) (h : s.Legible) :
    Clears (Poised K m₁ base) (fun _ _ => True) s.planCompiler fun k c m =>
      Poised K m₁ base c m ∧ OneLine k.datDirectory.text ∧ OneLine k.htmlDirectory.text := by
  unfold Setup.planCompiler
  refine Clears.knowing (perfTestName htools) fun name hname => ?_
  refine Clears.knowing (bound (by decide)) fun given hgiven => ?_
  extract_lets rest default
  have hrest : ∀ datDirectory : Path, OneLine datDirectory.text →
      Clears (Poised K m₁ base) (fun _ _ => True) (rest datDirectory) fun k c m =>
        Poised K m₁ base c m ∧ OneLine k.datDirectory.text ∧ OneLine k.htmlDirectory.text := by
    intro datDirectory hdat
    refine Clears.context.after fun c => ?_
    have hstart : Job.Clears (Faring K m₁ base 0 0) (fun _ _ => True) _ _ :=
      startTimings c.tmpDirectory datDirectory (name ++ s.settings.compPerformanceDescription)
    have hlifted : Clears (Poised K m₁ base) (fun _ _ => True)
        (liftM (CompilerPerf.start c.tmpDirectory datDirectory
          (name ++ s.settings.compPerformanceDescription))) fun k c m =>
        Poised K m₁ base c m ∧ k.datDirectory = datDirectory ∧
          k.htmlDirectory = datDirectory / "html" :=
      Clears.lift fun _ => ⟨fun hm hon => ⟨⟨hm.1, (hstart.ok hm.2 hon).1⟩, (hstart.ok hm.2 hon).2⟩,
        fun hm hon => hstart.error hm.2 hon⟩
    refine Clears.knowing hlifted fun k hk => ?_
    refine (sets (by decide) _).after fun _ => Clears.pure fun _ _ hm => ⟨hm, ?_, ?_⟩
    · rw [hk.1]
      exact hdat
    · rw [hk.2]
      exact Path.oneLine_div hdat (by decide)
  have hdefault : OneLine default.text :=
    Path.oneLine_div (Path.oneLine_div (Path.oneLine_div h.home (by decide)) (by decide)) hname
  cases given with
  | some text => exact hrest ⟨text⟩ (hgiven text rfl)
  | none =>
    refine (shows (by decide) hdefault).after fun _ => ?_
    exact hrest default hdefault

theorem performanceDirectories (htools : m₁.tools.Discreet) (h : s.Legible)
    (hK : s.settings.performance = true ∨ s.settings.compPerformance = true → K) :
    Clears (Poised K m₁ base) (fun _ _ => True) s.performanceDirectories fun plan c m =>
      Poised K m₁ base c m ∧ plan.Legible s.settings := by
  unfold Setup.performanceDirectories
  extract_lets o withGraphs
  have hwith : ∀ graphs : Option GraphPlan,
      (∀ g ∈ graphs, OneLine g.perfDirectory.text ∧ OneLine g.description) →
      Clears (Poised K m₁ base) (fun _ _ => True) (withGraphs graphs) fun plan c m =>
        Poised K m₁ base c m ∧ plan.Legible s.settings := by
    intro graphs hg
    simp -zeta only [withGraphs]
    extract_lets withCompiler
    have hcompiler : ∀ compiler : Option CompilerPerf,
        (∀ k ∈ compiler, OneLine k.datDirectory.text ∧ OneLine k.htmlDirectory.text) →
        (compiler.isSome → o.compPerformance = true) →
        Clears (Poised K m₁ base) (fun _ _ => True) (withCompiler compiler) fun plan c m =>
          Poised K m₁ base c m ∧ plan.Legible s.settings := by
      intro compiler hk hkeeping
      simp only [withCompiler]
      split
      · next directory hdirectory =>
        obtain ⟨hline, hkept⟩ : OneLine directory.text ∧ K := by
          unfold commitDirectory at hdirectory
          split at hdirectory
          · next hperformance =>
            obtain ⟨g, hgraphs, rfl⟩ := Option.map_eq_some_iff.mp hdirectory
            exact ⟨Path.oneLine_div (hg g hgraphs).1 (hg g hgraphs).2, hK (.inl hperformance)⟩
          · split at hdirectory
            · next hcomp =>
              obtain ⟨k, hcompiler, rfl⟩ := Option.map_eq_some_iff.mp hdirectory
              exact ⟨(hk k hcompiler).1, hK (.inr hcomp)⟩
            · cases hdirectory
        refine Clears.knowing (git htools _ _) fun commit _ => ?_
        refine Clears.context.after fun c => ?_
        exact (lift (Faring.recordCommit htools hkept c hline commit)).after fun _ =>
          Clears.pure fun _ _ hm => ⟨hm, hg, hk, hkeeping⟩
      · exact Clears.pure fun _ _ hm => ⟨hm, hg, hk, hkeeping⟩
    split
    · next hcomp =>
      rw [map_eq_pure_bind, bind_assoc]
      refine Clears.knowing (planCompiler htools h) fun k hk => ?_
      rw [pure_bind]
      exact hcompiler (some k) (by rintro _ ⟨⟩; exact hk) fun _ => hcomp
    · rw [pure_bind]
      exact hcompiler none nofun nofun
  split
  · rw [map_eq_pure_bind, bind_assoc]
    refine Clears.knowing (planGraphs htools h) fun g hg => ?_
    rw [pure_bind]
    exact hwith (some g) (by rintro _ ⟨⟩; exact hg)
  · rw [pure_bind]
    exact hwith none nofun

end Quiet

/-- Setup as a whole. -/
theorem run_quiet (htools : m₁.tools.Discreet) (h : s.Legible)
    (hK : s.settings.performance = true ∨ s.settings.compPerformance = true → K) {c : Context}
    (hc : c.Named) :
    Job.Clears (Faring K m₁ base 0 0) (fun _ _ => True) (s.run c) fun made m =>
      Faring K m₁ base 0 0 m ∧ made.2.Legible s.settings := by
  have harrange : Clears (Poised K m₁ base) (fun _ _ => True) s.arrange fun plan c m =>
      Poised K m₁ base c m ∧ plan.Legible s.settings := by
    unfold Setup.arrange
    refine Clears.knowing (Quiet.optionVariables h) fun execopts hexec => ?_
    refine (Quiet.general htools h).after fun _ => ?_
    refine (Quiet.performanceFlags h).after fun _ => ?_
    refine (Quiet.executables h hexec).after fun _ => ?_
    exact Quiet.performanceDirectories htools h hK
  unfold Setup.run
  exact ((harrange c).before fun _ hm => ⟨hc, hm⟩).bind fun r =>
    Job.Clears.pure fun _ hm => ⟨hm.1.2, hm.2⟩

theorem toolchainReport_steady (htools : m₁.tools.Discreet) (c : Context) :
    Faring.Steady K m₁ base (fun _ _ => True) (Setup.toolchainReport c) := by
  have hplain : ∀ text ∈ ["### Chapel Environment ###", "##########################"],
      Unmarked text := by
    intro text htext
    rcases List.mem_pair.mp htext with rfl | rfl <;>
      exact Foreign.unmarked (by decide) (OneLine.unmarkedBelow (by decide))
  have haside : Faring.Aside
      { program := (c.utilDirectory / "printchplenv").text, arguments := ["--all", "--no-tidy"]
        environment := c.scope none } := by
    rw [Faring.Aside, Command.tool_join rfl (by decide) (by decide)]
    decide
  unfold Setup.toolchainReport
  refine Faring.blank.bind fun _ => ?_
  refine (Faring.notes fun _ => hplain _ (by simp)).bind fun _ => ?_
  refine Job.Clears.knowing (Faring.asks htools haside true) fun report hreport => ?_
  cases report with
  | none => exact Faring.notes fun _ => hplain _ (by simp)
  | some output =>
    refine (Faring.notes fun _ => hreport output rfl).bind fun _ => ?_
    exact Faring.notes fun _ => hplain _ (by simp)

end Setup

namespace Session

variable {s : Session} {K : Prop} {m₁ : Machine} {base : List Change}

theorem oneLine_joinPaths {ps : List Path} (h : ∀ p ∈ ps, OneLine p.text) :
    OneLine (joinPaths ps) :=
  Text.oneLine_intercalate (by decide) (List.forall_mem_map.mpr h)

/-- Between setup and the phases, where the tests of the specification are not asked for. -/
theorem prelude_quiet (htools : m₁.tools.Discreet) (hgraphs : s.settings.genGraphs = true)
    {made : Context × PerfPlan} {files directories : List Path} (hfiles : ∀ p ∈ files, OneLine p.text)
    (hroots : ∀ p ∈ s.roots files directories, OneLine p.text) :
    Job.Clears (Faring K m₁ base 0 0) (fun _ _ => True) (s.prelude made files directories)
      fun roots m => Faring K m₁ base 0 0 m ∧ roots = s.roots files directories := by
  unfold prelude
  extract_lets roots rest
  have hhead : ∀ on : Bool,
      Foreign ("[directories: " ++ (if on then "" else "(nonrecursive): ") ++ "\"") ∧
      OneLine ("[directories: " ++ (if on then "" else "(nonrecursive): ") ++ "\"") ∧ OneLine "\"]" := by
    decide
  have hrest : ∀ u, Job.Clears (Faring K m₁ base 0 0) (fun _ _ => True) (rest u)
      fun roots m => Faring K m₁ base 0 0 m ∧ roots = s.roots files directories := by
    intro u
    refine (Faring.notes fun _ => Foreign.shows (by decide) (oneLine_joinPaths hfiles)).bind fun _ => ?_
    refine (Faring.notes fun _ => Foreign.shows (hhead _) (oneLine_joinPaths hroots)).bind fun _ => ?_
    exact (Setup.toolchainReport_steady htools made.1).bind fun _ =>
      Job.Clears.pure fun _ hm => ⟨hm, rfl⟩
  have hspec : Faring.Steady K m₁ base (fun _ _ => True) (s.setup.specTests made.1) := by
    have hoff : (!s.setup.settings.genGraphs) = false := by
      rw [Bool.not_eq_false']
      exact hgraphs
    unfold Setup.specTests
    simp only [hoff, Bool.and_false, Bool.false_and, Bool.false_eq_true, if_false]
    exact Job.Clears.pure fun _ hm => hm
  split
  · exact hspec.bind hrest
  · exact hrest ()

end Session

end Regression
