import Regression.Proofs.Checks
import Regression.Proofs.Launching

namespace Regression

/-- The scripts for all tests that are asked for. -/
def Settings.scriptsFor (o : Settings) : ScriptRole → List Path
  | .preexec => o.preexec
  | .prediff => o.prediff

/-- A toolchain whose programs valgrind can run. -/
structure Toolchain.RunsValgrind (t : Toolchain) : Prop where
  tasks : t.tasks = "fifo"
  memory : t.targetMemory = "cstdlib"
  expressions : t.re2 = "none" ∨ ∃ v ∈ ["1", "true", "True", "yes"],
    t.get? "CHPL_RE2_VALGRIND_SUPPORT" = some v

namespace Setup

/-- A later machine whose log has been told of no error since. -/
structure Quietly (m₀ m : Machine) : Prop where
  onward : Onward (fun _ => True) m₀ m
  changes : ∃ new, m.changes = new ++ m₀.changes
  told : ∃ told, m.notes = told ++ m₀.notes ∧ ∀ text ∈ told, Text.startsWith text "[Error" = false

/-- The place of valgrind is asked for, and the first line of the answer is `line`. -/
def AsksPlace (m : Machine) (line : Option String) (m' : Machine) : Prop :=
  ∃ c : Command, c.program = "which" ∧ c.arguments = ["valgrind"] ∧ ∃ output,
    (attempt c.captureQuiet).on m = (output, m') ∧
      line = output.bind fun text => (Text.lines text).head?

def compilerLine (p : Path) : String := "[compiler: \"" ++ p.text ++ "\"]"

def scriptLine (role : ScriptRole) (p : Path) : String :=
  "[system-wide " ++ role.text ++ ": " ++ p.text ++ "]"

/-- A file that could be run when setup looked at it, just before it told its log of it by
`line`. -/
def Passed (m₀ : Machine) (line : String) (p : Path) (m : Machine) : Prop :=
  ∃ seen, (Onward (fun _ => True) m₀ seen ∧ ∃ new, seen.changes = new ++ m₀.changes) ∧
    (∃ told, m.notes = told ++ line :: seen.notes) ∧ seen.Trusts m p

/-- Where valgrind is asked for, its place has been found since. -/
def FindsValgrind (s : Setup) (m₀ m : Machine) : Prop :=
  s.settings.valgrind = true → ∃ before line after, Onward (fun _ => True) m₀ before ∧
    AsksPlace before (some line) after ∧ Onward (fun _ => True) after m

/-- What is wrong on a machine on which setup ends by such a fatal error, having begun on `m₀`. -/
def Violates (s : Setup) (m₀ : Machine) (cause : Fatal) (m : Machine) : Prop :=
  match cause with
  | .noCompiler p => p = s.compilerPath ∧ m.isExecutable p = false
  | .noScript role script =>
    script ∈ s.settings.scriptsFor role ∧ m.isExecutable (s.cwd / script.text) = false
  | .noValgrind => s.settings.valgrind = true ∧
    ∃ before, Onward (fun _ => True) m₀ before ∧ AsksPlace before none m
  | .valgrindTasks =>
    (s.settings.valgrind || s.settings.valgrindExe) = true ∧ s.toolchain.tasks ≠ "fifo"
  | .valgrindMemory =>
    (s.settings.valgrind || s.settings.valgrindExe) = true ∧ s.toolchain.targetMemory ≠ "cstdlib"
  | .valgrindExpressions =>
    (s.settings.valgrind || s.settings.valgrindExe) = true ∧ s.toolchain.re2 ≠ "none" ∧
      ∀ v ∈ ["1", "true", "True", "yes"], s.toolchain.get? "CHPL_RE2_VALGRIND_SUPPORT" ≠ some v
  | _ => False

/-- Setup has refused to go on, and has told of no other error before. -/
def Refused (s : Setup) (m₀ : Machine) (cause : Fatal) (m : Machine) : Prop :=
  Quietly m₀ m ∧ s.Violates m₀ cause m

section Bearing

variable {m₀ m : Machine} {s : Setup} {B : String → Prop} {line : String} {p : Path}

theorem bearing_onward : Bearing B (Onward (fun _ => True) m₀) where
  console _ _ h := h.alike rfl rfl
  diagnostics _ _ h := h.alike rfl rfl
  start _ _ _ h := h.start trivial
  note _ text _ h := h.note text
  edit _ _ h := h.alike rfl rfl

theorem bearing_changes (changes : List Change) :
    Bearing B fun m => ∃ new, m.changes = new ++ changes where
  console _ _ h := h
  diagnostics _ _ h := h
  start m c _ h := by
    obtain ⟨new, hnew⟩ := h
    rw [Command.start_on]
    cases m.tools m.commands c m.directory m.files with
    | error fault => exact ⟨new, hnew⟩
    | ok ended => exact ⟨_ :: new, congrArg _ hnew⟩
  note m text _ h := by
    obtain ⟨files, log, console, hnote⟩ := note_records m text
    rw [hnote]
    exact h
  edit _ _ h := by
    obtain ⟨new, hnew⟩ := h
    exact ⟨_ :: new, congrArg _ hnew⟩

/-- What holds of all messages that may be told holds of all that have been since. -/
theorem bearing_notes {Q : String → Prop} (hB : ∀ text, B text → Q (Text.trimEnd text))
    (notes : List String) :
    Bearing B fun m => ∃ told, m.notes = told ++ notes ∧ ∀ text ∈ told, Q text where
  console _ _ h := h
  diagnostics _ _ h := h
  start m c _ h := by
    rw [Command.start_on]
    cases m.tools m.commands c m.directory m.files <;> exact h
  note m text ht h := by
    obtain ⟨told, htold, hall⟩ := h
    obtain ⟨files, log, console, hnote⟩ := note_records m text
    refine ⟨Text.trimEnd text :: told, ?_, List.forall_mem_cons.mpr ⟨hB text ht, hall⟩⟩
    rw [hnote, List.cons_append, ← htold]
  edit _ _ h := h

/-- No plain message is of an error. -/
theorem bearing_plain (notes : List String) : Bearing Plain fun m => ∃ told,
    m.notes = told ++ notes ∧ ∀ text ∈ told, Text.startsWith text "[Error" = false :=
  bearing_notes (fun _ h => h.startsWith) notes

theorem Quietly.refl : Quietly m m := ⟨.refl, ⟨[], rfl⟩, [], rfl, nofun⟩

theorem bearing_quietly : Bearing Plain (Quietly m₀) :=
  (bearing_onward.and ((bearing_changes m₀.changes).and (bearing_plain m₀.notes))).congr fun _ =>
    ⟨fun h => ⟨h.1, h.2.1, h.2.2⟩, fun h => ⟨h.onward, h.changes, h.told⟩⟩

/-- A message that has been told stays told. -/
theorem bearing_told (notes : List String) :
    Bearing B fun m => ∃ told, m.notes = told ++ notes := by
  have hnotes := bearing_notes (B := B) (Q := fun _ => True) (fun _ _ => trivial) notes
  exact hnotes.congr fun m => exists_congr fun told => and_iff_left fun _ _ => trivial

theorem bearing_trusts (seen : Machine) : Bearing B fun m => seen.Trusts m p where
  console _ _ h := h.alike rfl rfl rfl
  diagnostics _ _ h := h.alike rfl rfl rfl
  start _ c _ h := h.start c
  note _ text _ h := h.note text
  edit _ files h := h.change none files rfl rfl rfl

theorem bearing_passed : Bearing B (Passed m₀ line p) :=
  .any fun seen => .and (.const _) (.and (bearing_told _) (bearing_trusts seen))

theorem bearing_finds : Bearing B (s.FindsValgrind m₀) :=
  .all fun _ => .any fun _ => .any fun _ => .any fun _ =>
    .and (.const _) (.and (.const _) bearing_onward)

end Bearing

section Checks

variable {m₀ m : Machine} {s : Setup}

theorem trimEnd_compilerLine (p : Path) : Text.trimEnd (compilerLine p) = compilerLine p :=
  Text.trimEnd_seen (t := "\"]") (c := ']') (by decide) (by decide) _

theorem trimEnd_scriptLine (role : ScriptRole) (p : Path) :
    Text.trimEnd (scriptLine role p) = scriptLine role p :=
  Text.trimEnd_seen (t := "]") (c := ']') (by decide) (by decide) _

/-- What has just been looked at has passed when the log is told of it. -/
theorem tell_passed {R : Machine → Prop} {V : Fatal → Machine → Prop} {line : String} {p : Path}
    (hR : Bearing Plain R) (hquiet : ∀ m, R m → Quietly m₀ m) (hplain : Plain line)
    (htrim : Text.trimEnd line = line) {seen : Machine} (hseen : seen.isExecutable p = true) :
    Job.Clears (fun m => R m ∧ seen = m) V (note line) fun _ m => R m ∧ Passed m₀ line p m := by
  refine ⟨fun {m _ m'} hm hrun => ?_, fun hm hrun => (hR.tell hplain).error hm.1 hrun⟩
  obtain ⟨hR', rfl⟩ := hm
  have hafter := (hR.tell (V := V) hplain).ok hR' hrun
  have htrusts := (Machine.Trusts.refl hseen).note line
  rw [hrun] at htrusts
  obtain ⟨files, log, console, hnote⟩ := note_ok hrun
  refine ⟨hafter, seen, ⟨(hquiet _ hR').onward, (hquiet _ hR').changes⟩, ⟨[], ?_⟩, htrusts⟩
  rw [hnote, htrim]
  rfl

theorem firstLineOf_asks : Clears (fun _ => Quietly m₀) (s.Refused m₀)
    (firstLineOf "which" ["valgrind"]) fun line _ m => Quietly m₀ m ∧
      ∃ before, Onward (fun _ => True) m₀ before ∧ AsksPlace before line m := by
  unfold firstLineOf
  refine Clears.context.bind fun c => ?_
  have hask : Clears (fun _ => Quietly m₀) (s.Refused m₀)
      (liftM (liftM (attempt (Command.captureQuiet
        { program := "which", arguments := ["valgrind"], environment := c.scope none })) :
        Job (Option String)))
      fun output _ m => Quietly m₀ m ∧ ∃ before, Onward (fun _ => True) m₀ before ∧
        AsksPlace before (output.bind fun text => (Text.lines text).head?) m := by
    refine Clears.lift fun _ => Job.Clears.lift fun m hm => ?_
    exact ⟨bearing_quietly.captureQuiet trivial m hm, m, hm.onward, _, rfl, rfl, _, rfl, rfl⟩
  exact hask.bind fun output => Clears.pure fun _ _ h => h

theorem any_supports (value : Option String) :
    (value.any fun v => v == "1" || v == "true" || v == "True" || v == "yes") = true ↔
      ∃ v ∈ ["1", "true", "True", "yes"], value = some v := by
  cases value with
  | none => simp
  | some w => simp [or_assoc]

/-- What valgrind needs of the toolchain is there, or the first thing that is not is named. -/
theorem checkValgrind_cases (hwants : (s.settings.valgrind || s.settings.valgrindExe) = true) :
    checkValgrind s.toolchain = .ok () ∧ s.toolchain.RunsValgrind ∨
      ∃ cause, checkValgrind s.toolchain = .error cause ∧ ∀ m, s.Violates m₀ cause m := by
  simp only [checkValgrind, bne_iff_ne, Bool.and_eq_true, Bool.not_eq_true', ← Bool.not_eq_true,
    any_supports]
  by_cases htasks : s.toolchain.tasks = "fifo"
  · by_cases hmemory : s.toolchain.targetMemory = "cstdlib"
    · rw [if_neg (not_not_intro htasks), if_neg (not_not_intro hmemory)]
      split
      · next hre2 =>
        refine .inr ⟨_, rfl, fun _ => ⟨hwants, hre2.1, fun v hv hvalue => hre2.2 ⟨v, hv, hvalue⟩⟩⟩
      · next hre2 =>
        exact .inl ⟨rfl, htasks, hmemory, Decidable.or_iff_not_not_and_not.mpr hre2⟩
    · rw [if_neg (not_not_intro htasks), if_pos hmemory]
      exact .inr ⟨_, rfl, fun _ => ⟨hwants, hmemory⟩⟩
  · rw [if_pos htasks]
    exact .inr ⟨_, rfl, fun _ => ⟨hwants, htasks⟩⟩

/-- What setup keeps once it has looked for valgrind. -/
def Sought (s : Setup) (m₀ : Machine) (_ : Context) (m : Machine) : Prop :=
  Quietly m₀ m ∧ s.FindsValgrind m₀ m

/-- What it keeps once it has looked at the toolchain. -/
def Readied (s : Setup) (m₀ : Machine) (c : Context) (m : Machine) : Prop :=
  s.Sought m₀ c m ∧
    ((s.settings.valgrind || s.settings.valgrindExe) = true → s.toolchain.RunsValgrind)

/-- What it keeps once it has looked at the compiler. -/
def Compiles (s : Setup) (m₀ : Machine) (c : Context) (m : Machine) : Prop :=
  s.Readied m₀ c m ∧ Passed m₀ (compilerLine s.compilerPath) s.compilerPath m

theorem enduring_quietly : Enduring Plain fun _ => Quietly m₀ := .of_bearing bearing_quietly

theorem enduring_sought : Enduring Plain (s.Sought m₀) :=
  .of_bearing (bearing_quietly.and bearing_finds)

theorem enduring_readied : Enduring Plain (s.Readied m₀) :=
  enduring_sought.and (.of_bearing (.const _))

theorem clears_valgrind :
    Clears (fun _ => Quietly m₀) (s.Refused m₀) s.valgrind fun _ => s.Readied m₀ := by
  have h : Enduring Plain (s.Sought m₀) := enduring_sought
  unfold valgrind
  extract_lets o quiet threads
  have hquiet : (o.valgrind || o.valgrindExe) = true → ∀ u,
      Clears (s.Sought m₀) (s.Refused m₀) (quiet u) fun _ => s.Readied m₀ := by
    intro hwants u
    refine (h.provide _ _).after fun _ => ?_
    rcases checkValgrind_cases hwants with ⟨hok, hruns⟩ | ⟨cause, herror, hviolates⟩
    · simp only [hok]
      exact Clears.pure fun _ _ hm => ⟨hm, fun _ => hruns⟩
    · simp only [herror]
      exact Clears.throw fun _ m hm => ⟨hm.1, hviolates m⟩
  have hthreads : ∀ u,
      Clears (s.Sought m₀) (s.Refused m₀) (threads u) fun _ => s.Readied m₀ := by
    intro u
    simp only [threads]
    split
    · next hwants =>
      refine (Clears.bound _).after fun value => ?_
      split
      · exact (h.provide _ _).after (hquiet hwants)
      · exact (h.remark (by decide) _ _).after (hquiet hwants)
    · next hnot => exact Clears.pure fun _ _ hm => ⟨hm, fun hwants => absurd hwants hnot⟩
  split
  · next hon =>
    refine (enduring_quietly.note (by decide)).after fun _ => ?_
    refine firstLineOf_asks.bind fun place => ?_
    cases place with
    | none =>
      refine Clears.bind (?_ : Clears _ _ _ fun _ => s.Sought m₀) hthreads
      exact Clears.throw fun _ m hm => ⟨hm.1, hon, hm.2⟩
    | some binary =>
      refine Clears.before (P := s.Sought m₀) ?_ ?_
      · refine (h.firstLineOf _ _).after fun version => ?_
        refine (h.remark (by decide) _ _).after fun _ => ?_
        refine (h.remark (by decide) _ _).after fun _ => ?_
        refine (h.provide _ _).after fun _ => ?_
        exact (h.provide _ _).after hthreads
      · rintro _ m ⟨hm, before, hbefore, hasks⟩
        exact ⟨hm, fun _ => ⟨before, binary, m, hbefore, hasks, .refl⟩⟩
  · next hoff =>
    refine Clears.before (P := s.Sought m₀) ?_ fun _ m hm => ⟨hm, fun hon => absurd hon hoff⟩
    refine (h.provide _ _).after fun _ => ?_
    split
    · refine (h.note (by decide)).after fun _ => ?_
      exact (h.provide _ _).after hthreads
    · refine (h.note (by decide)).after fun _ => ?_
      exact (h.provide _ _).after hthreads

theorem clears_general :
    Clears (fun _ => Quietly m₀) (s.Refused m₀) s.general fun _ => s.Readied m₀ := by
  have h : Enduring Plain fun (_ : Context) => Quietly m₀ := enduring_quietly
  unfold general
  extract_lets rest
  have hrest : ∀ u, Clears (fun _ => Quietly m₀) (s.Refused m₀) (rest u) fun _ => s.Readied m₀ := by
    intro u
    refine (h.remark (by decide) _ _).after fun _ => ?_
    refine (h.remark (by decide) _ _).after fun _ => ?_
    refine (h.remark (by decide) _ _).after fun _ => ?_
    refine (h.remark (by decide) _ _).after fun _ => ?_
    refine (h.remark (by decide) _ _).after fun _ => ?_
    exact (h.remark (by decide) _ _).after fun _ => clears_valgrind
  refine Clears.world.after fun m => ?_
  refine (h.remark (by decide) _ _).after fun _ => ?_
  refine (h.git _ _).after fun branch => ?_
  refine (h.git _ _).after fun commit => ?_
  refine (h.note (.append (.append (.append (.append (by decide) _) _) _) _)).after fun _ => ?_
  refine Clears.world.after fun m' => ?_
  split
  · exact (h.say _).after hrest
  · exact hrest ()

/-- What a context is to hold once the compiler is known. -/
def Given (s : Setup) (c : Context) (_ : Machine) : Prop := c.compiler = s.compilerPath

theorem enduring_compiles : Enduring Plain fun c m => s.Given c m ∧ s.Compiles m₀ c m := by
  have hgiven : Enduring Plain s.Given := ⟨fun _ => .const _, fun _ _ _ _ hm => hm⟩
  exact hgiven.and (enduring_readied.and (.of_bearing bearing_passed))

theorem clears_programs (execopts : String) :
    Clears (s.Readied m₀) (s.Refused m₀) (s.programs execopts) fun _ c m =>
      s.Given c m ∧ s.Compiles m₀ c m := by
  unfold programs
  extract_lets o compiler launchCmd rest
  have h : Enduring Plain fun c m => s.Given c m ∧ s.Compiles m₀ c m := enduring_compiles
  have hrest : ∀ seen : Machine, seen.isExecutable compiler = true → ∀ u,
      Clears (fun c m => s.Readied m₀ c m ∧ seen = m) (s.Refused m₀) (rest u) fun _ c m =>
        s.Given c m ∧ s.Compiles m₀ c m := by
    intro seen hseen u
    have hpassed : Clears (fun c m => s.Readied m₀ c m ∧ seen = m) (s.Refused m₀)
        (liftM (note (compilerLine compiler))) fun _ => s.Compiles m₀ :=
      Clears.lift fun c => tell_passed (enduring_readied.bears c) (fun _ hm => hm.1.1)
        (.append (.append (by decide) _) _) (trimEnd_compilerLine _) hseen
    have hgiven : Clears (s.Compiles m₀) (s.Refused m₀)
        (modify fun c => { c with compiler }) fun _ c m => s.Given c m ∧ s.Compiles m₀ c m :=
      Clears.modify fun _ _ hm => ⟨rfl, hm⟩
    refine hpassed.bind fun _ => hgiven.bind fun _ => ?_
    refine (h.remark (by decide) _ _).after fun _ => ?_
    refine (h.provide _ _).after fun _ => ?_
    refine (h.remark (by decide) _ _).after fun _ => ?_
    refine (h.provide _ _).after fun _ => ?_
    refine (h.remark (by decide) _ _).after fun _ => ?_
    exact Clears.context.after fun _ => h.provide _ _
  refine Clears.machine.bind fun seen => ?_
  cases hseen : seen.isExecutable compiler with
  | true => exact hrest seen hseen ()
  | false =>
    have hthrow : Clears (fun c m => s.Readied m₀ c m ∧ seen = m) (s.Refused m₀)
        (throw (.fatal (.noCompiler compiler)) : Arranging PUnit) fun _ _ _ => False := by
      refine Clears.throw ?_
      rintro _ _ ⟨hm, rfl⟩
      exact ⟨hm.1.1, rfl, hseen⟩
    exact hthrow.bind fun _ _ => ⟨False.elim, False.elim⟩

/-- Scripts that have passed, all of them. -/
def ScriptsPassed (s : Setup) (m₀ : Machine) (role : ScriptRole) (m : Machine) : Prop :=
  ∀ script ∈ s.settings.scriptsFor role,
    Passed m₀ (scriptLine role (s.cwd / script.text)) (s.cwd / script.text) m

theorem bearing_scripts {B : String → Prop} (role : ScriptRole) :
    Bearing B (s.ScriptsPassed m₀ role) :=
  .all fun _ => .all fun _ => bearing_passed

/-- Scripts are looked at one by one, and what was found of one is kept while others are looked
at. -/
theorem clears_scripts {R : Machine → Prop} (hR : Bearing Plain R)
    (hquiet : ∀ m, R m → Quietly m₀ m) (role : ScriptRole) (scripts : List Path)
    (hasked : ∀ script ∈ scripts, script ∈ s.settings.scriptsFor role) :
    Job.Clears R (s.Refused m₀) (systemScripts s.cwd role scripts) fun _ m => R m ∧
      ∀ script ∈ scripts,
        Passed m₀ (scriptLine role (s.cwd / script.text)) (s.cwd / script.text) m := by
  induction scripts generalizing R with
  | nil => exact Job.Clears.pure fun _ hm => ⟨hm, nofun⟩
  | cons script rest ih =>
    obtain ⟨hhere, hlater⟩ := List.forall_mem_cons.mp hasked
    rw [systemScripts]
    refine Job.Clears.get.bind fun seen => ?_
    cases hseen : seen.isExecutable (s.cwd / script.text) with
    | true =>
      have hpassed : Job.Clears (fun m => R m ∧ seen = m) (s.Refused m₀)
          (note (scriptLine role (s.cwd / script.text))) fun _ m => R m ∧
            Passed m₀ (scriptLine role (s.cwd / script.text)) (s.cwd / script.text) m :=
        tell_passed hR hquiet (.append (.append (.append (.append (by decide) _) _) _) _)
          (trimEnd_scriptLine _ _) hseen
      refine hpassed.bind fun _ => ?_
      refine (ih (hR.and bearing_passed) (fun m hm => hquiet m hm.1) hlater).bind fun ps => ?_
      exact Job.Clears.pure fun m hm => ⟨hm.1.1, List.forall_mem_cons.mpr ⟨hm.1.2, hm.2⟩⟩
    | false =>
      have hthrow : Job.Clears (fun m => R m ∧ seen = m) (s.Refused m₀)
          (throw (.fatal (.noScript role script)) : Job PUnit) fun _ _ => False := by
        refine Job.Clears.throw ?_
        rintro _ ⟨hm, rfl⟩
        exact ⟨hquiet _ hm, hhere, hseen⟩
      exact hthrow.bind fun _ => ⟨False.elim, False.elim⟩

/-- What setup keeps once it has looked at all that it needs. -/
def Looked (s : Setup) (m₀ : Machine) (c : Context) (m : Machine) : Prop :=
  (s.Given c m ∧ s.Compiles m₀ c m) ∧ ∀ role, s.ScriptsPassed m₀ role m

theorem clears_systemWide :
    Clears (fun c m => s.Given c m ∧ s.Compiles m₀ c m) (s.Refused m₀) s.systemWide fun _ =>
      s.Looked m₀ := by
  have h : Enduring Plain fun c m =>
      (s.Given c m ∧ s.Compiles m₀ c m) ∧ s.ScriptsPassed m₀ .preexec m :=
    enduring_compiles.and (.of_bearing (bearing_scripts _))
  have hlooked : Enduring Plain (s.Looked m₀) :=
    enduring_compiles.and (.of_bearing (.all fun role => bearing_scripts role))
  unfold systemWide
  extract_lets o rest
  have hrest : ∀ u, Clears (fun c m =>
      (s.Given c m ∧ s.Compiles m₀ c m) ∧ s.ScriptsPassed m₀ .preexec m) (s.Refused m₀) (rest u)
      fun _ => s.Looked m₀ := by
    intro u
    have hprediff : Clears (fun c m =>
        (s.Given c m ∧ s.Compiles m₀ c m) ∧ s.ScriptsPassed m₀ .preexec m) (s.Refused m₀)
        (liftM (systemScripts s.cwd .prediff o.prediff)) fun _ => s.Looked m₀ := by
      refine Clears.lift fun c => Job.Clears.mono
        (clears_scripts (h.bears c) (fun _ hm => hm.1.2.1.1.1) .prediff _ fun _ hs => hs) ?_
      rintro _ m ⟨hm, hprediff⟩
      refine ⟨hm.1, fun role => ?_⟩
      cases role with
      | preexec => exact hm.2
      | prediff => exact hprediff
    refine hprediff.bind fun asked => ?_
    exact Clears.either (hlooked.provide _ _) (Clears.given _)
  cases hempty : o.preexec.isEmpty with
  | true =>
    have hnone : s.settings.scriptsFor .preexec = [] := List.isEmpty_iff.mp hempty
    refine Clears.before (hrest ()) fun c m hm => ⟨hm, fun script hscript => ?_⟩
    rw [hnone] at hscript
    cases hscript
  | false =>
    have hpreexec : Clears (fun c m => s.Given c m ∧ s.Compiles m₀ c m) (s.Refused m₀)
        (liftM (systemScripts s.cwd .preexec o.preexec)) fun _ c m =>
          (s.Given c m ∧ s.Compiles m₀ c m) ∧ s.ScriptsPassed m₀ .preexec m :=
      Clears.lift fun c => clears_scripts (enduring_compiles.bears c) (fun _ hm => hm.2.1.1.1)
        .preexec _ fun _ hs => hs
    refine hpreexec.bind fun scripts => ?_
    exact (h.provide _ _).after hrest

theorem clears_executables (execopts : String) :
    Clears (s.Readied m₀) (s.Refused m₀) (s.executables execopts) fun _ => s.Looked m₀ := by
  have h : Enduring Plain fun c m => s.Given c m ∧ s.Compiles m₀ c m := enduring_compiles
  unfold executables
  refine (clears_programs execopts).bind fun _ => ?_
  refine h.configuration.after fun _ => ?_
  refine (h.launching _).after fun _ => ?_
  exact h.locales.after fun _ => clears_systemWide

/-- What setup has found when it ends, of what it has looked at. -/
def Relied (s : Setup) (m₀ : Machine) (c : Context) (m : Machine) : Prop :=
  s.Given c m ∧ (s.FindsValgrind m₀ m ∧
    ((s.settings.valgrind || s.settings.valgrindExe) = true → s.toolchain.RunsValgrind) ∧
    Passed m₀ (compilerLine s.compilerPath) s.compilerPath m ∧ ∀ role, s.ScriptsPassed m₀ role m)

/-- The last step of setup may tell of errors, but takes nothing back. -/
theorem clears_arrange :
    Clears (fun _ => Quietly m₀) (s.Refused m₀) s.arrange fun _ => s.Relied m₀ := by
  have hrelied : Enduring (fun _ => True) (s.Relied m₀) :=
    Enduring.and ⟨fun _ => .const _, fun _ _ _ _ hm => hm⟩
      (.of_bearing (bearing_finds.and ((Bearing.const _).and
        (bearing_passed.and (.all fun role => bearing_scripts role)))))
  unfold arrange
  refine enduring_quietly.optionVariables.after fun execopts => ?_
  refine clears_general.bind fun _ => ?_
  refine enduring_readied.performanceFlags.after fun _ => ?_
  refine (clears_executables execopts).bind fun _ => ?_
  refine ((hrelied.narrow fun _ _ => trivial).performanceDirectories
    (hrelied.recordCommit fun _ => trivial)).before ?_
  rintro c m ⟨⟨hgiven, ⟨⟨-, hfinds⟩, hruns⟩, hcompiler⟩, hscripts⟩
  exact ⟨hgiven, hfinds, hruns, hcompiler, hscripts⟩

end Checks

section Listed

variable {s : Setup} {tmp : Path} {host : Option String} {e : Environment}

/-- Scripts that a configuration needs by itself come after those that are asked for. -/
theorem foldl_addScript (asked added : List Path) :
    ∃ more, added.foldl addScript asked = asked ++ more := by
  induction added generalizing asked with
  | nil => exact ⟨[], (List.append_nil _).symm⟩
  | cons p rest ih =>
    rw [List.foldl_cons, addScript]
    split
    · exact ih asked
    · obtain ⟨more, hmore⟩ := ih (asked ++ [p])
      exact ⟨p :: more, by rw [hmore, List.append_assoc]; rfl⟩

/-- The variables of the scripts are the last that are set before those that tell of measuring. -/
theorem get?_exported_scripts {name value : String}
    (h : s.scriptBindings.reverse.lookup name = some value)
    (hname : name ∉ ["CHPL_TEST_PERF_DIR", "CHPL_TEST_PERF_DESCRIPTION",
      "CHPL_TEST_COMP_PERF_TEMP_DAT_DIR"]) :
    (s.exported tmp host e).get? name = some value := by
  have hgraphs : ∀ e, Among ["CHPL_TEST_PERF_DIR", "CHPL_TEST_PERF_DESCRIPTION",
      "CHPL_TEST_COMP_PERF_TEMP_DAT_DIR"] (s.graphBindings host e) := fun _ =>
    .only (.append (.only (.cons (by decide) .nil)) (.only (.cons (by decide) .nil)))
  have htimings : Among ["CHPL_TEST_PERF_DIR", "CHPL_TEST_PERF_DESCRIPTION",
      "CHPL_TEST_COMP_PERF_TEMP_DAT_DIR"] (timingBindings s.settings tmp) :=
    .only (.cons (by decide) .nil)
  rw [exported, late, measured, htimings.get? hname, (hgraphs _).get? hname, configured,
    Environment.get?_setAll, h, Option.some_or]

theorem lookup_preexec (h : s.settings.preexec ≠ []) :
    s.scriptBindings.reverse.lookup "CHPL_SYSTEM_PREEXEC" =
      some (joinPaths (s.scripts s.settings.preexec)) := by
  have hsome : (!s.settings.preexec.isEmpty) = true := by simpa using h
  rw [scriptBindings, only, if_pos hsome]
  unfold only
  split <;> rfl

theorem lookup_prediff (h : s.settings.prediff ≠ []) : ∃ more,
    s.scriptBindings.reverse.lookup "CHPL_SYSTEM_PREDIFF" =
      some (joinPaths (s.scripts s.settings.prediff ++ more)) := by
  obtain ⟨more, hmore⟩ := foldl_addScript (s.scripts s.settings.prediff)
    ((automaticPrediffs s.toolchain).map s.layout.testUtil)
  have hall : s.prediffs = s.scripts s.settings.prediff ++ more := hmore
  have hsome : (!s.prediffs.isEmpty) = true := by
    rw [hall]
    simp [scripts, h]
  refine ⟨more, ?_⟩
  rw [scriptBindings, only, only, if_pos hsome, List.reverse_append, ← hall]
  rfl

end Listed

/-- What setup has made sure of when it has succeeded, with a context, having begun on `m₀`. -/
structure Vetted (s : Setup) (m₀ : Machine) (c : Context) (m : Machine) : Prop where
  compiler : c.compiler = s.compilerPath ∧
    Passed m₀ (compilerLine s.compilerPath) s.compilerPath m
  scripts : ∀ role, s.ScriptsPassed m₀ role m
  preexec : s.settings.preexec ≠ [] →
    c.get? "CHPL_SYSTEM_PREEXEC" = some (joinPaths (s.scripts s.settings.preexec))
  /-- Those that the configuration needs by itself follow. -/
  prediff : s.settings.prediff ≠ [] → ∃ more,
    c.get? "CHPL_SYSTEM_PREDIFF" = some (joinPaths (s.scripts s.settings.prediff ++ more))
  found : s.FindsValgrind m₀ m
  toolchain : (s.settings.valgrind || s.settings.valgrindExe) = true → s.toolchain.RunsValgrind

/-- How setup can end that began on a machine. -/
inductive Ends (s : Setup) (m₀ : Machine) : Except Error (Context × PerfPlan) → Machine → Prop where
  | vetted {made : Context × PerfPlan} {m : Machine} (h : s.Vetted m₀ made.1 m) :
    Ends s m₀ (.ok made) m
  | refused {cause : Fatal} {m : Machine} (h : s.Violates m₀ cause m) (hquiet : Quietly m₀ m) :
    Ends s m₀ (.error (.fatal cause)) m
  | system {fault : Fault} {m : Machine} : Ends s m₀ (.error (.system fault)) m
  | log {file : Path} {fault : Fault} {m : Machine} : Ends s m₀ (.error (.logWrite file fault)) m

/-- From every machine, with every context. -/
theorem run_ends (s : Setup) (c : Context) (m₀ : Machine) :
    s.Ends m₀ ((s.run c).on m₀).1 ((s.run c).on m₀).2 := by
  have hrun : Job.Clears (Quietly m₀) (s.Refused m₀) (s.run c) fun made => s.Relied m₀ made.1 := by
    unfold Setup.run
    exact (clears_arrange c).bind fun _ => Job.Clears.pure fun _ hm => hm
  cases hend : (s.run c).on m₀ with
  | mk result m =>
    cases result with
    | ok made =>
      obtain ⟨hgiven, hfinds, hruns, hcompiler, hscripts⟩ := hrun.ok .refl hend
      obtain ⟨host, -, hexported⟩ := run_exports hend
      refine .vetted ⟨⟨hgiven, hcompiler⟩, hscripts, fun hsome => ?_, fun hsome => ?_, hfinds,
        hruns⟩
      · rw [Context.get?, hexported]
        exact get?_exported_scripts (lookup_preexec hsome) (by decide)
      · obtain ⟨more, hmore⟩ := lookup_prediff hsome
        refine ⟨more, ?_⟩
        rw [Context.get?, hexported]
        exact get?_exported_scripts hmore (by decide)
    | error e =>
      have hblames := hrun.error .refl hend
      cases e with
      | fatal cause => exact .refused hblames.2 hblames.1
      | system fault => exact .system
      | logWrite file fault => exact .log
      | _ => exact hblames.elim

end Setup

end Regression
