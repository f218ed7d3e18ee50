import Regression.Proofs.Tools
import Regression.Proofs.Traces

namespace Regression

abbrev Bindings := List (String × String)

namespace Environment

theorem setAll_append (e : Environment) (bs bs' : Bindings) :
    e.setAll (bs ++ bs') = (e.setAll bs).setAll bs' :=
  List.foldl_append

/-- A value that is set over others does not depend on what lies below it. -/
theorem get?_setAll_congr {e e' : Environment} {bs : Bindings} {name : String}
    (h : e.get? name = e'.get? name) : (e.setAll bs).get? name = (e'.setAll bs).get? name := by
  rw [get?_setAll, get?_setAll, h]

theorem setAll_congr {e e' : Environment} {bs : Bindings}
    (h : ∀ name ∉ bs.map Prod.fst, e.get? name = e'.get? name) : e.setAll bs = e'.setAll bs := by
  refine ext_get? fun name => ?_
  rw [get?_setAll, get?_setAll]
  cases hvalue : bs.reverse.lookup name with
  | some v => rfl
  | none =>
    rw [h]
    intro hmem
    obtain ⟨b, hb, rfl⟩ := List.mem_map.mp hmem
    have hother := List.lookup_eq_none_iff.mp hvalue b (List.mem_reverse.mpr hb)
    simp at hother

end Environment

/-- What a machine with such tools may answer when it is asked for its name. -/
def Tools.Tell (tools : Tools) (host : Option String) : Prop :=
  ∃ history c cwd files, c.program = "uname" ∧ c.arguments = ["-n"] ∧
    host = (Command.printed (tools history c cwd files)).bind fun output => (Text.lines output).head?

theorem Tools.exists_tell (tools : Tools) : ∃ host, tools.Tell host :=
  ⟨_, [], { program := "uname", arguments := ["-n"] }, [], {}, rfl, rfl, rfl⟩

theorem Command.attempt_captureQuiet_answer (c : Command) (m : Machine) :
    ((attempt c.captureQuiet).on m).1 = printed (m.tools m.commands c m.directory m.files) := by
  simp only [attempt_on, captureQuiet, captureWith, Job.on_bind, start_on]
  cases m.tools m.commands c m.directory m.files with
  | error fault => rfl
  | ok ended =>
    simp only [Bool.false_eq_true, ↓reduceIte, printed]
    split <;> rfl

/-- No step of a session changes what its tools are. -/
theorem Lasting.tools (tmp : Path) (tools : Tools) :
    Lasting tmp (fun _ => True) fun m => m.tools = tools := by
  refine ⟨⟨fun _ _ h => h, fun _ _ h => h, ?_⟩, ?_, fun _ _ _ h => h⟩
  · intro m c _ h
    rw [Command.start_on]
    cases m.tools m.commands c m.directory m.files <;> exact h
  · intro m text h
    obtain ⟨files, log, console, hnote⟩ := note_records m text
    rw [hnote]
    exact h

theorem Command.captureQuiet_printed (tmp : Path) (tools : Tools) (c : Command) :
    Job.Keeps (fun m => m.tools = tools) (liftM (attempt c.captureQuiet) : Job (Option String))
      fun output => ∃ history cwd files, output = printed (tools history c cwd files) := by
  rintro m rfl
  refine ⟨(Lasting.tools tmp m.tools).captureQuiet trivial m rfl, fun output hout => ?_⟩
  rw [Job.on_lift, Except.ok.injEq, attempt_captureQuiet_answer] at hout
  exact ⟨m.commands, m.directory, m.files, hout.symm⟩

namespace Setup

section Table

/-- Bindings that are made only in some cases. -/
def only (p : Prop) [Decidable p] (bs : Bindings) : Bindings := if p then bs else []

/-- A binding that is made where there is a value for it. -/
def given (name : String) (value : Option String) : Bindings :=
  (value.map fun v => (name, v)).toList

/-- Bindings of certain names only. -/
def Among (names : List String) (bs : Bindings) : Prop := ∀ b ∈ bs, b.1 ∈ names

namespace Among

variable {names : List String} {bs bs' : Bindings} {name : String}

theorem nil : Among names [] := nofun

theorem cons {n v : String} (hn : n ∈ names) (h : Among names bs) : Among names ((n, v) :: bs) :=
  List.forall_mem_cons.mpr ⟨hn, h⟩

theorem append (h : Among names bs) (h' : Among names bs') : Among names (bs ++ bs') :=
  List.forall_mem_append.mpr ⟨h, h'⟩

theorem only {p : Prop} [Decidable p] (h : Among names bs) : Among names (only p bs) := by
  unfold Setup.only
  split
  · exact h
  · exact nil

theorem given {n : String} (hn : n ∈ names) (value : Option String) :
    Among names (given n value) := by
  cases value with
  | none => exact nil
  | some v => exact cons hn nil

theorem lookup (h : Among names bs) (hname : name ∉ names) : bs.lookup name = none := by
  rw [List.lookup_eq_none_iff]
  intro b hb
  have hne : name ≠ b.1 := fun heq => hname (heq ▸ h b hb)
  simpa using hne

/-- What such bindings leave as it is. -/
theorem get? (h : Among names bs) (hname : name ∉ names) (e : Environment) :
    (e.setAll bs).get? name = e.get? name := by
  have hreverse : Among names bs.reverse := fun b hb => h b (List.mem_reverse.mp hb)
  rw [Environment.get?_setAll, hreverse.lookup hname, Option.none_or]

end Among

def stdinBindings (o : Settings) : Bindings :=
  only (o.noStdinRedirect || o.stdinRedirect) (("CHPL_NO_STDIN_REDIRECT", "true") ::
    only o.stdinRedirect [("CHPL_TEST_FORCE_STDIN_REDIRECT", "true")])

def trialBindings (o : Settings) : Bindings :=
  ("CHPL_TEST_NUM_TRIALS", toString o.trials) ::
    given "CHPL_TEST_ROOT_DIR" (o.testRoot.map (·.text))

/-- The variables that stand for options. -/
def optionBindings (o : Settings) : Bindings :=
  only (o.memLeaks || o.memLeaksLog.isSome) [("CHPL_MEM_LEAK_TESTING", "true")] ++
    (only o.compOnly [("CHPL_COMPONLY", "true")] ++
    (stdinBindings o ++ (given "CHPL_LAUNCHER_TIMEOUT" o.launcherTimeout ++ trialBindings o)))

def valgrindBindings (o : Settings) : Bindings :=
  if o.valgrind then [("CHPL_TEST_VGRND_COMP", "on"), ("CHPL_TEST_VGRND_EXE", "on")]
  else [("CHPL_TEST_VGRND_COMP", "off"),
    ("CHPL_TEST_VGRND_EXE", if o.valgrindExe then "on" else "off")]

/-- A number of threads that is given stays. -/
def threadBindings (o : Settings) (e : Environment) : Bindings :=
  only (o.valgrind || o.valgrindExe)
    (only ((e.get? threadsName).isNone) [(threadsName, "450")] ++
      [("CHPL_RT_NUM_THREADS_PER_LOCALE_QUIET", "yes")])

def performanceBindings (o : Settings) : Bindings :=
  only o.performance [("CHPL_TEST_PERF", "on"), ("CHPL_TEST_PERF_LABEL", o.perfLabel)] ++
  only o.compPerformance [("CHPL_TEST_COMP_PERF", "on")]

def leaksLog (s : Setup) : Option Path := s.settings.memLeaksLog.map fun p => s.cwd / p.text

def programBindings (s : Setup) : Bindings :=
  [("COMPOPTS", s.settings.compoptsValue), ("EXECOPTS", s.settings.execoptsValue s.leaksLog)]

def launchCmd (s : Setup) : String := s.settings.launchCmd.getD ""

def configurationBindings (t : Toolchain) : Bindings :=
  [("CHPL_COMM", t.comm), ("CHPL_GASNET_SEGMENT", t.commSegment), ("CHPL_LAUNCHER", t.launcher),
    ("CHPL_NETWORK_ATOMICS", t.networkAtomics), ("CHPL_LOCALE_MODEL", t.localeModel),
    ("CHPL_LLVM", t.llvm), ("CHPL_TASKS", t.tasks)]

def redirectionBindings (launcher : String) (e : Environment) : Bindings :=
  only (!stdinLaunchers.contains launcher && !(e.getFilled? "CHPL_NO_STDIN_REDIRECT").isSome &&
    !(e.getFilled? "CHPL_TEST_FORCE_STDIN_REDIRECT").isSome) [("CHPL_NO_STDIN_REDIRECT", "true")]

def timeoutBindings (launcher : String) (e : Environment) : Bindings :=
  only (!(e.getFilled? "CHPL_LAUNCHER_TIMEOUT").isSome &&
      !(e.getFilled? "CHPL_TEST_DONT_SET_LAUNCHER_TIMEOUT").isSome)
    (only (Text.contains launcher "slurm") [("CHPL_LAUNCHER_TIMEOUT", "slurm")] ++
      only (Text.contains launcher "pbs" || Text.contains launcher "qsub")
        [("CHPL_LAUNCHER_TIMEOUT", "pbs")])

/-- A session that communicates has at least one locale. -/
def localeCount (s : Setup) : Nat :=
  if s.settings.numLocales = 0 ∧ s.toolchain.comm ≠ "none" then 1 else s.settings.numLocales

def localeBindings (s : Setup) : Bindings :=
  ("NUMLOCALES", toString s.localeCount) ::
  (only (s.settings.maxLocales ≠ 0) [("CHPL_TEST_MAX_LOCALES", toString s.settings.maxLocales)] ++
  only (s.settings.multilocaleOnly = true ∧ s.toolchain.comm ≠ "none")
    [("CHPL_TEST_MULTILOCALE_ONLY", "true")])

def scripts (s : Setup) (given : List Path) : List Path := given.map fun script => s.cwd / script.text

def prediffs (s : Setup) : List Path :=
  ((automaticPrediffs s.toolchain).map s.layout.testUtil).foldl addScript
    (s.scripts s.settings.prediff)

def scriptBindings (s : Setup) : Bindings :=
  only (!s.settings.preexec.isEmpty)
    [("CHPL_SYSTEM_PREEXEC", joinPaths (s.scripts s.settings.preexec))] ++
  only (!s.prediffs.isEmpty) [("CHPL_SYSTEM_PREDIFF", joinPaths s.prediffs)]

/-- What performance data of a machine is filed under, where it answers `host` when it is asked for
its name. -/
def testName (host : Option String) (e : Environment) : String :=
  (e.get? "CHPL_TEST_PERF_CONFIG_NAME").getD
    (Text.lower (String.ofList
      ((((e.getFilled? "HOSTNAME").or host).getD "localhost").toList.takeWhile (· ≠ '.'))))

def graphBindings (s : Setup) (host : Option String) (e : Environment) : Bindings :=
  only (s.settings.performance || s.settings.genGraphs)
    (only ((e.getFilled? "CHPL_TEST_PERF_DIR").isNone)
        [("CHPL_TEST_PERF_DIR", (s.layout.home / "test" / "perfdat" / testName host e).text)] ++
      only (s.settings.performanceDescription ≠ "" ∧ s.settings.performanceDescription ≠ "default")
        [("CHPL_TEST_PERF_DESCRIPTION", s.settings.performanceDescription)])

def timingBindings (o : Settings) (tmp : Path) : Bindings :=
  only o.compPerformance [("CHPL_TEST_COMP_PERF_TEMP_DAT_DIR", (timings tmp).text ++ "/")]

/-- The environment that the options and the head of the log leave. -/
def early (s : Setup) (e : Environment) : Environment :=
  let e := (e.setAll (optionBindings s.settings)).setAll (valgrindBindings s.settings)
  (e.setAll (threadBindings s.settings e)).setAll (performanceBindings s.settings)

/-- The environment in which the launch command is expanded. -/
def beforeLaunch (s : Setup) (e : Environment) : Environment := (s.early e).setAll s.programBindings

def launched (s : Setup) (e : Environment) : Environment :=
  (s.beforeLaunch e).set "LAUNCHCMD" ((s.beforeLaunch e).expand s.launchCmd)

/-- The environment that the configuration makes of another, with the locales and the scripts. -/
def configured (s : Setup) (e : Environment) : Environment :=
  let e := e.setAll (configurationBindings s.toolchain)
  let e := e.setAll (redirectionBindings s.toolchain.launcher e)
  let e := e.setAll (timeoutBindings s.toolchain.launcher e)
  (e.setAll s.localeBindings).setAll s.scriptBindings

def measured (s : Setup) (tmp : Path) (host : Option String) (e : Environment) : Environment :=
  (e.setAll (s.graphBindings host e)).setAll (timingBindings s.settings tmp)

/-- What is set once the launch command has been expanded. -/
def late (s : Setup) (tmp : Path) (host : Option String) (e : Environment) : Environment :=
  s.measured tmp host (s.configured e)

/-- All that setup makes of an environment. -/
def exported (s : Setup) (tmp : Path) (host : Option String) (e : Environment) : Environment :=
  s.late tmp host (s.launched e)

end Table

variable {α β : Type} {tools : Tools} {tmp : Path} {e : Environment} {s : Setup}

/-- From the environment `e` a step of setup that succeeds comes to an answer and an environment as
`post` says, and the tools and their own directory stay what they are. -/
def Leads (tools : Tools) (tmp : Path) (e : Environment) (x : Arranging α)
    (post : α → Environment → Prop) : Prop :=
  ∀ c : Context, c.environment = e → c.tmpDirectory = tmp →
    (x.run c).Keeps (fun m => m.tools = tools) fun r =>
      r.2.tmpDirectory = tmp ∧ post r.1 r.2.environment

/-- A step that sets certain variables. -/
abbrev Sets (tools : Tools) (tmp : Path) (e : Environment) (x : Arranging α) (bs : Bindings)
    (post : α → Prop) : Prop :=
  Leads tools tmp e x fun a e' => post a ∧ e' = e.setAll bs

namespace Leads

theorem pure {a : α} {post : α → Environment → Prop} (h : post a e) :
    Leads tools tmp e (pure a) post :=
  fun _ he ht => Job.Keeps.pure ⟨ht, he ▸ h⟩

theorem throw (cause : Error) (post : α → Environment → Prop) :
    Leads tools tmp e (throw cause) post :=
  fun _ _ _ => Job.Keeps.throw cause _

theorem mono {x : Arranging α} {post weak : α → Environment → Prop} (h : Leads tools tmp e x post)
    (hw : ∀ a e', post a e' → weak a e') : Leads tools tmp e x weak :=
  fun c he ht => (h c he ht).mono fun _ hr => ⟨hr.1, hw _ _ hr.2⟩

theorem bind {x : Arranging α} {f : α → Arranging β} {mid : α → Environment → Prop}
    {post : β → Environment → Prop} (hx : Leads tools tmp e x mid)
    (hf : ∀ a e', mid a e' → Leads tools tmp e' (f a) post) : Leads tools tmp e (x >>= f) post := by
  intro c he ht
  rw [StateT.run_bind]
  exact Job.Keeps.bind (hx c he ht) fun r hr => hf r.1 _ hr.2 r.2 rfl hr.1

theorem either {p : Prop} [Decidable p] {x x' : Arranging α} {post : α → Environment → Prop}
    (hx : p → Leads tools tmp e x post) (hx' : ¬p → Leads tools tmp e x' post) :
    Leads tools tmp e (if p then x else x') post := by
  split
  · next hp => exact hx hp
  · next hp => exact hx' hp

/-- A step that leaves the variables alone. -/
theorem lift {j : Job α} {post : α → Prop} (h : j.Keeps (fun m => m.tools = tools) post) :
    Sets tools tmp e (liftM j : Arranging α) [] post :=
  fun _ he ht => Job.Keeps.bind h fun _ ha => Job.Keeps.pure ⟨ht, ha, he⟩

theorem get : Sets tools tmp e get [] fun c => c.environment = e ∧ c.tmpDirectory = tmp :=
  fun _ he ht => Job.Keeps.pure ⟨ht, ⟨he, ht⟩, he⟩

theorem modify {f : Context → Context}
    (h : ∀ c, (f c).environment = c.environment ∧ (f c).tmpDirectory = c.tmpDirectory) :
    Sets tools tmp e (modify f) [] fun _ => True :=
  fun c he ht => Job.Keeps.pure ⟨(h c).2.trans ht, trivial, (h c).1.trans he⟩

theorem provide (name value : String) :
    Sets tools tmp e (provide name value) [(name, value)] fun _ => True := by
  rintro c rfl ht
  exact Job.Keeps.pure ⟨ht, trivial, rfl⟩

theorem note (text : String) :
    Sets tools tmp e (liftM (Regression.note text)) [] fun _ => True :=
  lift ((Lasting.tools tmp tools).stays_note text)

theorem say (line : String) :
    Sets tools tmp e (liftM (liftM (Regression.say line) : Job Unit)) [] fun _ => True :=
  lift (Job.Keeps.lift ((Lasting.tools tmp tools).say line))

theorem machine : Sets tools tmp e (getThe Machine) [] fun _ => True := lift Job.Keeps.get

theorem removeFile (p : Path) :
    Sets tools tmp e (liftM (Regression.removeFile p)) [] fun _ => True :=
  lift ((Lasting.tools tmp tools).removeFile p)

end Leads

namespace Sets

/-- Steps one after the other set their variables one after the other. -/
theorem bind {x : Arranging α} {f : α → Arranging β} {bs bs' : Bindings} {mid : α → Prop}
    {post : β → Prop} (hx : Sets tools tmp e x bs mid)
    (hf : ∀ a, mid a → Sets tools tmp (e.setAll bs) (f a) bs' post) :
    Sets tools tmp e (x >>= f) (bs ++ bs') post := by
  refine Leads.bind hx ?_
  rintro a _ ⟨ha, rfl⟩
  rw [Environment.setAll_append]
  exact hf a ha

theorem after {x : Arranging α} {f : α → Arranging β} {bs bs' : Bindings} {mid : α → Prop}
    {post : β → Prop} (hx : Sets tools tmp e x bs mid)
    (hf : ∀ a, Sets tools tmp (e.setAll bs) (f a) bs' post) :
    Sets tools tmp e (x >>= f) (bs ++ bs') post :=
  bind hx fun a _ => hf a

/-- A step that sets nothing, before others. -/
theorem idle {x : Arranging α} {f : α → Arranging β} {mid : α → Prop}
    {post : β → Environment → Prop} (hx : Sets tools tmp e x [] mid)
    (hf : ∀ a, mid a → Leads tools tmp e (f a) post) : Leads tools tmp e (x >>= f) post := by
  refine Leads.bind hx ?_
  rintro a _ ⟨ha, rfl⟩
  exact hf a ha

theorem beside {x : Arranging α} {f : α → Arranging β} {mid : α → Prop}
    {post : β → Environment → Prop} (hx : Sets tools tmp e x [] mid)
    (hf : ∀ a, Leads tools tmp e (f a) post) : Leads tools tmp e (x >>= f) post :=
  idle hx fun a _ => hf a

/-- A step that sets nothing, after others. -/
theorem last {x : Arranging α} {f : α → Arranging β} {bs : Bindings} {mid : α → Prop}
    {post : β → Prop} (hx : Sets tools tmp e x bs mid)
    (hf : ∀ a, Sets tools tmp (e.setAll bs) (f a) [] post) :
    Sets tools tmp e (x >>= f) bs post := by
  have hafter := hx.after hf
  rwa [List.append_nil] at hafter

theorem pure {a : α} {post : α → Prop} (h : post a) :
    Sets tools tmp e (pure a : Arranging α) [] post :=
  Leads.pure ⟨h, rfl⟩

theorem given (a : α) : Sets tools tmp e (Pure.pure a : Arranging α) [] fun _ => True :=
  pure trivial

theorem throw (cause : Error) (bs : Bindings) (post : α → Prop) :
    Sets tools tmp e (throw cause : Arranging α) bs post :=
  Leads.throw cause _

theorem either {p : Prop} [Decidable p] {x x' : Arranging α} {bs bs' : Bindings} {post : α → Prop}
    (hx : Sets tools tmp e x bs post) (hx' : Sets tools tmp e x' bs' post) :
    Sets tools tmp e (if p then x else x') (if p then bs else bs') post := by
  split
  · exact hx
  · exact hx'

theorem whether {p : Prop} [Decidable p] {x : Arranging α} {rest : Arranging β}
    {bs bs' : Bindings} {mid : α → Prop} {post : β → Prop} (hx : Sets tools tmp e x bs mid)
    (hr : Sets tools tmp (e.setAll (only p bs)) rest bs' post) :
    Sets tools tmp e (if p then x >>= fun _ => rest else rest) (only p bs ++ bs') post := by
  unfold only at hr ⊢
  split
  · next hp =>
    rw [if_pos hp] at hr
    exact hx.after fun _ => hr
  · next hp =>
    rw [if_neg hp] at hr
    exact hr

theorem bound (name : String) : Sets tools tmp e (bound? name) [] (· = e.get? name) := by
  refine bind Leads.get fun c hc => pure ?_
  rw [Context.get?, hc.1]

theorem filled (name : String) :
    Sets tools tmp e (filled name) [] (· = (e.getFilled? name).isSome) := by
  refine bind Leads.get fun c hc => pure ?_
  rw [hc.1]

theorem git (cwd : Path) (arguments : List String) :
    Sets tools tmp e (git cwd arguments) [] fun _ => True := by
  refine bind Leads.get fun c _ => ?_
  have hask : ∀ c : Command, Effect.Stays (fun m => m.tools = tools) (attempt c.captureQuiet) :=
    fun _ => (Lasting.tools tmp tools).captureQuiet trivial
  exact (Leads.lift (Job.Keeps.lift (hask _))).after fun _ => given _

end Sets

/-- A machine may be asked for its name more than once, and need not answer the same. -/
theorem sets_firstLineOf (program : String) (arguments : List String) :
    Sets tools tmp e (firstLineOf program arguments) [] fun host =>
      program = "uname" → arguments = ["-n"] → tools.Tell host := by
  refine Sets.bind Leads.get fun c _ => ?_
  refine (Leads.lift (Command.captureQuiet_printed tmp tools _)).bind ?_
  rintro _ ⟨history, cwd, files, rfl⟩
  refine Sets.pure ?_
  rintro rfl rfl
  exact ⟨history, _, cwd, files, rfl, rfl, rfl⟩

theorem sets_optionVariables (s : Setup) (e : Environment) :
    Sets tools tmp e s.optionVariables (optionBindings s.settings)
      (· = s.settings.execoptsValue s.leaksLog) := by
  unfold optionVariables
  extract_lets o leaksLog last trials timeout stdin compOnly leaks
  change Sets tools tmp e _ (optionBindings o) (· = o.execoptsValue leaksLog)
  clear_value leaksLog
  have hlast : ∀ e u, Sets tools tmp e (last u) [] (· = o.execoptsValue leaksLog) :=
    fun _ _ => Sets.pure rfl
  have htrials : ∀ e u, Sets tools tmp e (trials u) (trialBindings o)
      (· = o.execoptsValue leaksLog) := by
    intro e u
    unfold trialBindings
    refine (Leads.provide _ _).after fun _ => ?_
    cases o.testRoot with
    | none => exact hlast _ ()
    | some root => exact (Leads.provide _ _).after (hlast _)
  have htimeout : ∀ e u, Sets tools tmp e (timeout u)
      (given "CHPL_LAUNCHER_TIMEOUT" o.launcherTimeout ++ trialBindings o)
      (· = o.execoptsValue leaksLog) := by
    intro e u
    simp only [timeout]
    cases o.launcherTimeout with
    | none => exact htrials _ ()
    | some value => exact (Leads.provide _ _).after (htrials _)
  have hstdin : ∀ e u, Sets tools tmp e (stdin u)
      (stdinBindings o ++ (given "CHPL_LAUNCHER_TIMEOUT" o.launcherTimeout ++ trialBindings o))
      (· = o.execoptsValue leaksLog) := by
    intro e u
    simp only [stdin, stdinBindings, only]
    split
    · refine (Leads.provide _ _).after fun _ => ?_
      exact Sets.whether (Leads.provide _ _) (htimeout _ ())
    · exact htimeout _ ()
  have hleaks : ∀ e u, Sets tools tmp e (leaks u) (only o.compOnly [("CHPL_COMPONLY", "true")] ++
      (stdinBindings o ++ (given "CHPL_LAUNCHER_TIMEOUT" o.launcherTimeout ++ trialBindings o)))
      (· = o.execoptsValue leaksLog) := by
    intro e u
    have hcompOnly : ∀ u, Sets tools tmp e (compOnly u) _ _ := fun u =>
      Sets.whether (Leads.provide "CHPL_COMPONLY" "true") (hstdin _ u)
    simp only [leaks]
    split
    · refine Leads.machine.beside fun m => ?_
      split
      · refine (Leads.note _).beside fun _ => ?_
        exact (Leads.removeFile _).beside hcompOnly
      · exact hcompOnly ()
    · exact hcompOnly ()
  exact Sets.whether (Leads.provide _ _) (hleaks _ ())

theorem sets_valgrind (s : Setup) (e : Environment) :
    Sets tools tmp e s.valgrind (valgrindBindings s.settings ++
      threadBindings s.settings (e.setAll (valgrindBindings s.settings))) fun _ => True := by
  unfold valgrind
  extract_lets o quiet threads
  have hquiet : ∀ e u, Sets tools tmp e (quiet u)
      [("CHPL_RT_NUM_THREADS_PER_LOCALE_QUIET", "yes")] fun _ => True := by
    intro e u
    refine Sets.last (Leads.provide _ _) fun _ => ?_
    split
    · exact Sets.given _
    · exact Sets.throw _ _ _
  have hthreads : ∀ e u, Sets tools tmp e (threads u) (threadBindings o e) fun _ => True := by
    intro e u
    refine Sets.either ?_ (Sets.given _)
    refine (Sets.bound _).idle ?_
    rintro _ rfl
    unfold only
    split
    · exact (Leads.provide _ _).after (hquiet _)
    · exact (Leads.note _).beside (hquiet _)
  unfold valgrindBindings
  split
  · refine (Leads.note _).beside fun _ => ?_
    refine (sets_firstLineOf _ _).beside fun binary => ?_
    split
    · refine (sets_firstLineOf _ _).beside fun version => ?_
      refine (Leads.note _).beside fun _ => ?_
      refine (Leads.note _).beside fun _ => ?_
      refine (Leads.provide _ _).after fun _ => ?_
      exact (Leads.provide _ _).after (hthreads _)
    · exact Sets.throw _ _ _
  · refine (Leads.provide _ _).after fun _ => ?_
    split
    · refine (Leads.note _).beside fun _ => ?_
      exact (Leads.provide _ _).after (hthreads _)
    · refine (Leads.note _).beside fun _ => ?_
      exact (Leads.provide _ _).after (hthreads _)

theorem sets_general (s : Setup) (e : Environment) :
    Sets tools tmp e s.general (valgrindBindings s.settings ++
      threadBindings s.settings (e.setAll (valgrindBindings s.settings))) fun _ => True := by
  unfold general
  extract_lets rest
  have hrest : ∀ u, Sets tools tmp e (rest u) (valgrindBindings s.settings ++
      threadBindings s.settings (e.setAll (valgrindBindings s.settings))) fun _ => True := by
    intro u
    refine (Leads.note _).beside fun _ => ?_
    refine (Leads.note _).beside fun _ => ?_
    refine (Leads.note _).beside fun _ => ?_
    refine (Leads.note _).beside fun _ => ?_
    refine (Leads.note _).beside fun _ => ?_
    exact (Leads.note _).beside fun _ => sets_valgrind s e
  refine Leads.machine.beside fun m => ?_
  refine (Leads.note _).beside fun _ => ?_
  refine (Sets.git _ _).beside fun branch => ?_
  refine (Sets.git _ _).beside fun commit => ?_
  refine (Leads.note _).beside fun _ => ?_
  refine Leads.machine.beside fun m' => ?_
  split
  · exact (Leads.say _).beside hrest
  · exact hrest ()

theorem sets_performanceFlags (s : Setup) (e : Environment) :
    Sets tools tmp e s.performanceFlags (performanceBindings s.settings) fun _ => True := by
  unfold performanceFlags
  extract_lets o trials compPerformance label
  have htrials : ∀ e u, Sets tools tmp e (trials u) [] fun _ => True := by
    intro e u
    refine (Leads.note _).beside fun _ => ?_
    refine (Leads.note _).beside fun _ => ?_
    split
    · exact (Leads.note _).beside fun _ => Leads.note _
    · exact Sets.given _
  have hcomp : ∀ e u, Sets tools tmp e (compPerformance u)
      (only o.compPerformance [("CHPL_TEST_COMP_PERF", "on")]) fun _ => True := by
    intro e u
    refine (Leads.note _).beside fun _ => ?_
    unfold only
    split
    · exact (Leads.provide _ _).last (htrials _)
    · exact htrials _ ()
  have hlabel : ∀ e u, Sets tools tmp e (label u) (("CHPL_TEST_PERF_LABEL", o.perfLabel) ::
      only o.compPerformance [("CHPL_TEST_COMP_PERF", "on")]) fun _ => True :=
    fun _ _ => (Leads.provide _ _).after (hcomp _)
  refine (Leads.note _).beside fun _ => ?_
  unfold performanceBindings
  rw [only]
  split
  · refine (Leads.provide _ _).after fun _ => ?_
    split
    · exact (Leads.note _).beside (hlabel _)
    · exact hlabel _ ()
  · exact hcomp _ ()

/-- The launch command is expanded with all that has been set until then. -/
theorem sets_programs (s : Setup) (e : Environment) :
    Sets tools tmp e (s.programs (s.settings.execoptsValue s.leaksLog))
      (s.programBindings ++ [("LAUNCHCMD", (e.setAll s.programBindings).expand s.launchCmd)])
      fun _ => True := by
  unfold programs
  extract_lets o compiler launchCmd rest
  have hrest : ∀ u, Sets tools tmp e (rest u)
      (s.programBindings ++ [("LAUNCHCMD", (e.setAll s.programBindings).expand s.launchCmd)])
      fun _ => True := by
    intro u
    refine (Leads.note _).beside fun _ => ?_
    refine Sets.beside (Leads.modify fun c => ⟨rfl, rfl⟩) fun _ => ?_
    refine (Leads.note _).beside fun _ => ?_
    refine (Leads.provide _ _).after fun _ => ?_
    refine (Leads.note _).beside fun _ => ?_
    refine (Leads.provide _ _).after fun _ => ?_
    refine (Leads.note _).beside fun _ => ?_
    refine Sets.idle Leads.get fun c hc => ?_
    rw [hc.1]
    exact Leads.provide _ _
  refine Leads.machine.beside fun m => ?_
  split
  · exact Sets.throw _ _ _
  · exact hrest ()

theorem sets_configuration (s : Setup) (e : Environment) :
    Sets tools tmp e s.configuration (configurationBindings s.toolchain) fun _ => True := by
  unfold configuration
  refine (Leads.note _).beside fun _ => ?_
  refine (Leads.provide _ _).after fun _ => ?_
  refine (Leads.provide _ _).after fun _ => ?_
  refine (Leads.provide _ _).after fun _ => ?_
  refine (Leads.note _).beside fun _ => ?_
  refine (Leads.provide _ _).after fun _ => ?_
  refine (Leads.note _).beside fun _ => ?_
  refine (Leads.provide _ _).after fun _ => ?_
  refine (Leads.provide _ _).after fun _ => ?_
  exact Leads.provide _ _

theorem sets_launching (launcher : String) (e : Environment) :
    Sets tools tmp e (launching launcher) (redirectionBindings launcher e ++
      timeoutBindings launcher (e.setAll (redirectionBindings launcher e))) fun _ => True := by
  unfold launching
  extract_lets queued timeout
  have hqueued : ∀ e u, Sets tools tmp e (queued u)
      (only (Text.contains launcher "pbs" || Text.contains launcher "qsub")
        [("CHPL_LAUNCHER_TIMEOUT", "pbs")]) fun _ => True :=
    fun _ _ => Sets.either (Leads.provide _ _) (Sets.given _)
  have htimeout : ∀ e u, Sets tools tmp e (timeout u) (timeoutBindings launcher e)
      fun _ => True := by
    intro e u
    refine (Sets.filled _).idle ?_
    rintro _ rfl
    refine (Sets.filled _).idle ?_
    rintro _ rfl
    exact Sets.either (Sets.whether (Leads.provide _ _) (hqueued _ u)) (Sets.given _)
  refine (Sets.filled _).idle ?_
  rintro _ rfl
  refine (Sets.filled _).idle ?_
  rintro _ rfl
  refine Leads.either (fun hp => ?_) fun hp => ?_
  · rw [redirectionBindings, only, if_pos hp]
    refine (Leads.say _).beside fun _ => ?_
    exact (Leads.provide _ _).after (htimeout _)
  · rw [redirectionBindings, only, if_neg hp]
    exact htimeout _ ()

theorem sets_locales (s : Setup) (e : Environment) :
    Sets tools tmp e s.locales s.localeBindings fun _ => True := by
  unfold locales
  extract_lets o comm count multilocale most
  have hmultilocale : ∀ e u, Sets tools tmp e (multilocale u)
      (only (o.multilocaleOnly = true ∧ comm ≠ "none") [("CHPL_TEST_MULTILOCALE_ONLY", "true")])
      fun _ => True := by
    intro e u
    refine Leads.either (fun hasked => ?_) fun hnot => ?_
    · refine Leads.either (fun hcomm => ?_) fun hcomm => ?_
      · rw [only, if_pos ⟨hasked, hcomm⟩]
        exact Leads.provide _ _
      · rw [only, if_neg fun h => hcomm h.2]
        exact Leads.note _
    · rw [only, if_neg fun h => hnot h.1]
      exact Sets.given _
  have hmost : ∀ e u, Sets tools tmp e (most u) s.localeBindings fun _ => True := by
    intro e u
    refine (Leads.provide _ _).after fun _ => ?_
    refine Leads.either (fun hdefault => ?_) fun hgiven => ?_
    · rw [only, if_neg fun h => h hdefault]
      exact (Leads.note _).beside (hmultilocale _)
    · rw [only, if_pos hgiven]
      refine (Leads.note _).beside fun _ => ?_
      exact (Leads.provide _ _).after (hmultilocale _)
  split <;> exact (Leads.note _).beside (hmost _)

/-- Scripts are told to the tools by their places seen from the starting directory. -/
theorem systemScripts_keeps (tmp cwd : Path) (tools : Tools) (role : ScriptRole)
    (asked : List Path) :
    (systemScripts cwd role asked).Keeps (fun m => m.tools = tools)
      (· = asked.map fun script => cwd / script.text) := by
  induction asked with
  | nil => exact Job.Keeps.pure rfl
  | cons script rest ih =>
    rw [systemScripts]
    refine Job.Keeps.get.after fun m => ?_
    refine Job.Keeps.whether (Job.Keeps.throw _ fun _ => True) ?_
    refine ((Lasting.tools tmp tools).stays_note _).after fun _ => ?_
    refine ih.bind ?_
    rintro _ rfl
    exact Job.Keeps.pure rfl

theorem sets_systemWide (s : Setup) (e : Environment) :
    Sets tools tmp e s.systemWide s.scriptBindings fun _ => True := by
  unfold systemWide
  extract_lets o rest
  have hrest : ∀ e u, Sets tools tmp e (rest u)
      (only (!s.prediffs.isEmpty) [("CHPL_SYSTEM_PREDIFF", joinPaths s.prediffs)])
      fun _ => True := by
    intro e u
    refine (Leads.lift (systemScripts_keeps tmp _ _ _ _)).idle ?_
    rintro _ rfl
    exact Sets.either (Leads.provide _ _) (Sets.given _)
  refine Leads.either (fun hp => ?_) fun hp => ?_
  · rw [scriptBindings, only, if_pos hp]
    refine (Leads.lift (systemScripts_keeps tmp _ _ _ _)).idle ?_
    rintro _ rfl
    exact (Leads.provide _ _).after (hrest _)
  · rw [scriptBindings, only, if_neg hp]
    exact hrest _ ()

theorem sets_perfTestName (e : Environment) :
    Sets tools tmp e perfTestName [] fun name =>
      ∃ host, tools.Tell host ∧ name = testName host e := by
  obtain ⟨any, hany⟩ := tools.exists_tell
  refine (Sets.bound _).idle ?_
  rintro _ rfl
  cases hname : e.get? "CHPL_TEST_PERF_CONFIG_NAME" with
  | some name => exact Sets.pure ⟨any, hany, by rw [testName, hname, Option.getD_some]⟩
  | none =>
    refine Leads.get.idle fun c hc => ?_
    rw [hc.1]
    cases hhost : e.getFilled? "HOSTNAME" with
    | some host =>
      refine Sets.idle (Sets.pure rfl) ?_
      rintro _ rfl
      refine Sets.pure ⟨any, hany, ?_⟩
      rw [testName, hname, hhost, Option.getD_none, Option.some_or]
    | none =>
      refine (sets_firstLineOf _ _).idle fun host htold => ?_
      refine Sets.pure ⟨host, htold rfl rfl, ?_⟩
      rw [testName, hname, hhost, Option.getD_none, Option.none_or]

theorem leads_planGraphs (hdraw : s.settings.performance || s.settings.genGraphs) (e : Environment) :
    Leads tools tmp e s.planGraphs fun _ e' =>
      ∃ host, tools.Tell host ∧ e' = e.setAll (s.graphBindings host e) := by
  unfold planGraphs
  refine (sets_perfTestName e).idle ?_
  rintro _ ⟨host, htold, rfl⟩
  refine Leads.mono (?_ : Sets tools tmp e _ (s.graphBindings host e) fun _ => True)
    fun _ _ h => ⟨host, htold, h.2⟩
  refine Leads.get.idle fun c hc => ?_
  extract_lets description rest directory
  have hlast : ∀ e d, Sets tools tmp e (rest d)
      (only (description ≠ "" ∧ description ≠ "default")
        [("CHPL_TEST_PERF_DESCRIPTION", description)]) fun _ => True :=
    fun _ _ => Sets.either (Sets.last (Leads.provide _ _) fun _ => Sets.given _) (Sets.given _)
  rw [hc.1, graphBindings, only, if_pos hdraw]
  cases e.getFilled? "CHPL_TEST_PERF_DIR" with
  | some given => exact (Sets.given _).beside (hlast _)
  | none =>
    refine (Leads.provide _ _).after fun _ => ?_
    refine (Leads.note _).beside fun _ => ?_
    exact (Sets.given _).beside (hlast _)

theorem sets_planCompiler (s : Setup) (e : Environment) :
    Sets tools tmp e s.planCompiler
      [("CHPL_TEST_COMP_PERF_TEMP_DAT_DIR", (timings tmp).text ++ "/")] fun _ => True := by
  unfold planCompiler
  refine (sets_perfTestName e).beside fun name => ?_
  refine (Sets.bound _).beside fun directory => ?_
  extract_lets rest default
  have hrest : ∀ datDirectory, Sets tools tmp e (rest datDirectory)
      [("CHPL_TEST_COMP_PERF_TEMP_DAT_DIR", (timings tmp).text ++ "/")] fun _ => True := by
    intro datDirectory
    refine Leads.get.idle fun c hc => ?_
    rw [hc.2]
    refine (Leads.lift ((Lasting.tools tmp tools).startTimings datDirectory _)).idle fun k hk => ?_
    have hvalue : k.tempDatValue = (timings tmp).text ++ "/" := by rw [CompilerPerf.tempDatValue, hk]
    rw [← hvalue]
    exact Sets.last (Leads.provide _ _) fun _ => Sets.given _
  split
  · exact (Sets.given _).beside hrest
  · refine (Leads.note _).beside fun _ => ?_
    exact (Sets.given _).beside hrest

/-- The last step of setup. -/
theorem leads_performanceDirectories (s : Setup) (e : Environment) :
    Leads tools tmp e s.performanceDirectories fun _ e' => ∃ host, tools.Tell host ∧
      e' = s.measured tmp host e := by
  unfold performanceDirectories
  extract_lets o withGraphs
  have hwith : ∀ e graphs, Sets tools tmp e (withGraphs graphs) (timingBindings o tmp)
      fun _ => True := by
    intro e graphs
    simp -zeta only [withGraphs]
    extract_lets withCompiler
    have hcompiler : ∀ e compiler, Sets tools tmp e (withCompiler compiler) [] fun _ => True := by
      intro e compiler
      simp only [withCompiler]
      split
      · refine (Sets.git _ _).beside fun commit => ?_
        refine Leads.get.beside fun c => ?_
        have hrecord := (Lasting.tools tmp tools).recordCommit (c := c) (fun _ => trivial)
        exact (Leads.lift (hrecord _ commit)).beside fun _ => Sets.given _
      · exact Sets.given _
    refine Leads.either (fun hcomp => ?_) fun hnot => ?_
    · rw [timingBindings, only, if_pos hcomp, map_eq_pure_bind, bind_assoc]
      refine Sets.last (sets_planCompiler s e) fun k => ?_
      rw [pure_bind]
      exact hcompiler _ _
    · rw [timingBindings, only, if_neg hnot]
      exact (Sets.given _).beside (hcompiler e)
  obtain ⟨any, hany⟩ := tools.exists_tell
  refine Leads.either (fun hdraw => ?_) fun hnot => ?_
  · rw [map_eq_pure_bind, bind_assoc]
    refine (leads_planGraphs hdraw e).bind ?_
    rintro plan _ ⟨host, htold, rfl⟩
    rw [pure_bind]
    exact (hwith _ _).mono fun _ _ h => ⟨host, htold, h.2⟩
  · have hnone : s.graphBindings any e = [] := by rw [graphBindings, only, if_neg hnot]
    refine (Sets.given _).beside fun graphs => (hwith e graphs).mono fun _ _ h => ⟨any, hany, ?_⟩
    rw [measured, hnone]
    exact h.2

theorem leads_executables (s : Setup) (e : Environment) :
    Leads tools tmp (s.early e) (s.executables (s.settings.execoptsValue s.leaksLog)) fun _ e' =>
      e' = s.configured (s.launched e) := by
  unfold executables
  refine Leads.bind (sets_programs s _) ?_
  rintro _ _ ⟨-, rfl⟩
  rw [Environment.setAll_append]
  refine Leads.bind (sets_configuration s _) ?_
  rintro _ _ ⟨-, rfl⟩
  refine Leads.bind (sets_launching _ _) ?_
  rintro _ _ ⟨-, rfl⟩
  rw [Environment.setAll_append]
  refine Leads.bind (sets_locales s _) ?_
  rintro _ _ ⟨-, rfl⟩
  exact (sets_systemWide s _).mono fun _ _ h => h.2

theorem leads_arrange (s : Setup) (e : Environment) :
    Leads tools tmp e s.arrange fun _ e' => ∃ host, tools.Tell host ∧
      e' = s.exported tmp host e := by
  unfold arrange
  refine Leads.bind (sets_optionVariables s _) ?_
  rintro _ _ ⟨rfl, rfl⟩
  refine Leads.bind (sets_general s _) ?_
  rintro _ _ ⟨-, rfl⟩
  rw [Environment.setAll_append]
  refine Leads.bind (sets_performanceFlags s _) ?_
  rintro _ _ ⟨-, rfl⟩
  refine Leads.bind (leads_executables s e) ?_
  rintro _ _ rfl
  exact leads_performanceDirectories s _

/-- From every environment, where setup succeeds. -/
theorem run_exports {c : Context} {m m' : Machine} {made : Context × PerfPlan}
    (h : (s.run c).on m = (.ok made, m')) : ∃ host, m.tools.Tell host ∧
      made.1.environment = s.exported c.tmpDirectory host c.environment := by
  obtain ⟨r, m₁, harrange, hpure⟩ := Job.bind_ok h
  cases hpure
  obtain ⟨-, hpost⟩ := leads_arrange s c.environment c rfl rfl m rfl
  rw [harrange] at hpost
  exact (hpost r rfl).2

end Setup

end Regression
