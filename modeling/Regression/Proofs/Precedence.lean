import Regression.Proofs.Agreement
import Regression.Proofs.Inheritance

namespace Regression

namespace CommandLine

variable {r r' r₁ : Reading} {o o' : Opt} {arg s : String} {value : Option String}
  {rest : List Char} {args values : List String} {ps : List Part}

/-- What an option holds that values have been given to, as they were written. -/
def Opt.Gathers (o : Opt) (written : List String) (held : List o.kind.Value) : Prop :=
  ∃ vs, List.Forall₂ (fun s v => o.kind.read s = .ok v) written vs ∧
    held = vs.foldl o.gather (({} : Choices).given o)

namespace Opt.Gathers

variable {written : List String} {held : List o.kind.Value} {v : o.kind.Value}

theorem concat (h : o.Gathers written held) (hread : o.kind.read s = .ok v) :
    o.Gathers (written ++ [s]) (o.gather held v) := by
  obtain ⟨vs, hvs, rfl⟩ := h
  refine ⟨vs ++ [v], List.rel_append hvs (.cons hread .nil), ?_⟩
  rw [List.foldl_append]
  rfl

theorem readable (h : o.Gathers written held) (hs : s ∈ written) : ∃ v, o.kind.read s = .ok v := by
  obtain ⟨vs, hvs, -⟩ := h
  induction hvs with
  | nil => cases hs
  | cons hread _ ih =>
    rcases List.mem_cons.mp hs with rfl | hs
    · exact ⟨_, hread⟩
    · exact ih hs

theorem nothing (h : o.Gathers [] held) : held = ({} : Choices).given o := by
  obtain ⟨vs, hvs, rfl⟩ := h
  cases hvs
  rfl

/-- An option that is no list holds the one value that is given to it. -/
theorem single (h : o.Gathers [s] held) (honce : o.repeats = false) :
    ∃ v, o.kind.read s = .ok v ∧ held = [v] := by
  obtain ⟨vs, hvs, rfl⟩ := h
  cases hvs with
  | @cons _ v _ _ hread hnil =>
    cases hnil
    exact ⟨v, hread, if_neg (by simp [honce])⟩

/-- Such an option is given nothing, or one value. -/
theorem one (h : o.Gathers written held) (honce : o.repeats = false)
    (hlength : written.length ≤ 1) :
    written = [] ∧ held = ({} : Choices).given o ∨
      ∃ s v, written = [s] ∧ o.kind.read s = .ok v ∧ held = [v] := by
  rcases written with _ | ⟨s, _ | ⟨s', rest⟩⟩
  · exact .inl ⟨rfl, h.nothing⟩
  · obtain ⟨v, hread, hheld⟩ := h.single honce
    exact .inr ⟨s, v, rfl, hread, hheld⟩
  · simp at hlength

end Opt.Gathers

namespace Reading

/-- The values that have been given to an option are taken in, but for the one that is pending. -/
structure Holds (r : Reading) (o : Opt) (values : List String) : Prop where
  taken : ∃ written, values = written ++ r.pending.held o ∧
    o.Gathers written (r.choices.given o) ∧ r.given.count o = written.length
  once : o.repeats ∨ r.given.count o ≤ 1

namespace Holds

theorem start (o : Opt) : ({} : Reading).Holds o [] where
  taken := ⟨[], rfl, ⟨[], .nil, rfl⟩, rfl⟩
  once := .inr (Nat.zero_le 1)

/-- What is pending is set aside. -/
theorem settled (h : r.Holds o values) : ∃ written, values = written ++ r.pending.held o ∧
    { r with pending := .nothing }.Holds o written := by
  obtain ⟨⟨written, hvalues, hgathers, hcount⟩, honce⟩ := h
  exact ⟨written, hvalues, ⟨written, (List.append_nil _).symm, hgathers, hcount⟩, honce⟩

theorem pending (h : r.Holds o values) (hnothing : r.pending.held o = []) (p : Pending) :
    { r with pending := p }.Holds o (values ++ p.held o) := by
  obtain ⟨⟨written, hvalues, hgathers, hcount⟩, honce⟩ := h
  rw [hnothing, List.append_nil] at hvalues
  exact ⟨⟨written, congrArg (· ++ _) hvalues, hgathers, hcount⟩, honce⟩

theorem supplied (h : r.Holds o values) (htaker : r.taker arg = some o') :
    { r with pending := .option o' (some arg) }.Holds o
      (values ++ if o' = o then [arg] else []) := by
  have hpending := pending_of_waiting (waiting_of_taker htaker)
  exact h.pending (hpending ▸ rfl) (.option o' (some arg))

section Valued

variable (hvalue : o.takesValue)
include hvalue

theorem accept (h : r.Holds o values) (hpending : r.pending = .nothing)
    (haccept : r.accept o' s = .ok r') : r'.Holds o (values ++ if o' = o then [s] else []) := by
  obtain ⟨hnew, v, hread, rfl⟩ := accept_eq_ok_iff.mp haccept
  obtain ⟨⟨written, hvalues, hgathers, hcount⟩, honce⟩ := h
  have hstill : (r.add o' v).pending = .nothing := hpending
  have hgiven : (r.add o' v).given = o' :: r.given := rfl
  rw [hpending, Pending.held, List.append_nil] at hvalues
  subst hvalues
  by_cases ho : o' = o
  · subst ho
    have hasks : o'.asks = false := by
      cases o' <;> first | rfl | cases hvalue
    refine ⟨⟨values ++ [s], ?_, ?_, ?_⟩, hnew.imp id fun hnot => ?_⟩
    · rw [hstill, Pending.held, List.append_nil, if_pos rfl]
    · rw [choices_add, Choices.given_take_self _ hasks]
      exact hgathers.concat hread
    · rw [hgiven, List.count_cons_self, List.length_append, hcount, List.length_singleton]
    · have hfirst : (o' :: r.given).count o' = 1 := by
        rw [List.count_cons_self, List.count_eq_zero_of_not_mem hnot]
      exact Nat.le_of_eq hfirst
  · refine ⟨⟨values, ?_, ?_, ?_⟩, ?_⟩
    · rw [hstill, Pending.held, if_neg ho]
    · rw [choices_add, Choices.given_take_other _ (Ne.symm ho)]
      exact hgathers
    · rw [hgiven, List.count_cons_of_ne ho, hcount]
    · rw [hgiven, List.count_cons_of_ne ho]
      exact honce

theorem settlePending (h : r.Holds o values) (hsettle : r.settlePending = .ok r') :
    r'.Holds o values := by
  obtain ⟨written, rfl, hrest⟩ := h.settled
  rw [Reading.settlePending] at hsettle
  cases hpending : r.pending with
  | nothing =>
    rw [hpending] at hsettle
    cases hsettle
    rw [Pending.held, List.append_nil]
    exact hrest
  | option o' value =>
    rw [hpending] at hsettle
    cases value with
    | none => cases hsettle
    | some v => exact hrest.accept hvalue rfl hsettle
  | targets targets =>
    rw [hpending] at hsettle
    obtain ⟨-, rfl⟩ := acceptTargets_eq_ok_iff.mp hsettle
    rw [Pending.held, List.append_nil]
    exact ⟨hrest.taken, hrest.once⟩

theorem long (h : r.Holds o values) (hnamed : named? rest = some (o', value))
    (hlong : r.long rest = .ok r') :
    r'.Holds o (values ++ if o' = o then value.toList else []) := by
  obtain ⟨r₁, hsettle, hcases⟩ := long_cases hnamed hlong
  have hsettled := h.settlePending hvalue hsettle
  have hpending := pending_of_settlePending hsettle
  obtain ⟨v, -, rfl, haccept⟩ | ⟨-, rfl, rfl⟩ | ⟨htakes, rfl, haccept⟩ := hcases
  · exact hsettled.accept hvalue hpending haccept
  · rw [Option.toList_none, ite_self]
    exact hsettled.pending (hpending ▸ rfl) (.option o' none)
  · have hother : o' ≠ o := by
      rintro rfl
      cases htakes.symm.trans hvalue
    have hgrown := hsettled.accept hvalue hpending haccept
    rw [if_neg hother] at hgrown ⊢
    exact hgrown

theorem target (h : r.Holds o values) (htarget : r.target arg = .ok r') : r'.Holds o values := by
  obtain ⟨targets, hpending, rfl⟩ | ⟨r₁, hsettle, rfl⟩ := target_cases htarget
  · have hgrown := h.pending (hpending ▸ rfl) (.targets (targets ++ [arg]))
    rwa [Pending.held, List.append_nil] at hgrown
  · have hpending := pending_of_settlePending hsettle
    have hgrown := (h.settlePending hvalue hsettle).pending (hpending ▸ rfl) (.targets [arg])
    rwa [Pending.held, List.append_nil] at hgrown

theorem readTargets (h : r.Holds o values) (hread : readTargets r args = .ok r') :
    r'.Holds o values := by
  induction args generalizing r with
  | nil =>
    cases hread
    exact h
  | cons arg args ih =>
    obtain ⟨r₁, htarget, hread⟩ := bind_eq_ok hread
    exact ih (h.target hvalue htarget) hread

end Valued

end Holds

end Reading

/-- Along a whole command line an option with a value holds what is given to it. -/
theorem Reads.holds (hvalue : o.takesValue) (h : Reads r args ps r') (hholds : r.Holds o values) :
    r'.Holds o (values ++ valuesGiven o r.waiting (ps.zip args)) := by
  induction h generalizing values with
  | nil r =>
    rw [List.zip_nil_left, valuesGiven, List.append_nil]
    exact hholds
  | value htaker hrest ih =>
    have hgrown := ih (hholds.supplied htaker)
    simp only [List.zip_cons_cons, valuesGiven, Reading.waiting_of_taker htaker, Option.some.injEq]
    rwa [List.append_assoc] at hgrown
  | @ending r r' arg args hfree hshape hread =>
    rw [List.zip_cons_cons, valuesGiven, valuesGiven_targets, List.append_nil]
    exact hholds.readTargets hvalue hread
  | @option r r₁ r' o' arg value rest args ps hfree hshape hnamed hlong hrest ih =>
    have hgrown := ih (hholds.long hvalue hnamed hlong)
    have hwaiting : r₁.waiting = some o ↔ (if value.isNone then some o' else none) = some o := by
      rw [Reading.waiting_of_long hnamed hlong]
      by_cases ho : o' = o
      · rw [ho, hvalue, Bool.true_and]
      · simp [ho]
    rwa [valuesGiven_congr hwaiting, List.append_assoc] at hgrown
  | target hfree hshape htarget hrest ih =>
    have hgrown := ih (hholds.target hvalue htarget)
    rwa [Reading.waiting_of_target htarget] at hgrown

/-- A command line is accepted where what is read of it can be taken in. -/
theorem Reads.accepted {program : String} {normal : List String} (hreads : Reads {} normal ps r)
    (hnormal : normalizeFrom .argument args = normal) (hsettle : r.settlePending = .ok r') :
    read program args = .ok r'.choices.resolved := by
  have hread : CommandLine.readArguments {} (normalize (program :: args)).tail = .ok r := by
    rw [normalize, List.tail_cons, hnormal, hreads.readArguments]
  exact parse_eq_ok_iff.mpr ⟨r, hread, r', hsettle, rfl⟩

/-- The values that a command line gives to an option. -/
def valuesOf (args : List String) (o : Opt) : List String :=
  valuesGiven o none ((Expecting.argument.parts args).zip args)

/-- What is chosen by a command line that is accepted. Options that are no lists are given once at
most. -/
theorem read_gathers {program : String} {settings : Settings} {targets : List Path}
    (h : read program args = .ok (settings, targets)) : ∃ c : Choices,
      c.resolved = (settings, targets) ∧ ∀ o : Opt, o.takesValue →
        o.Gathers (valuesOf args o) (c.given o) ∧
          (o.repeats = false → (valuesOf args o).length ≤ 1) := by
  obtain ⟨r, hread, r', hsettle, hresolved⟩ := parse_eq_ok_iff.mp h
  obtain ⟨ps, hreads⟩ := reads_of_readArguments hread
  have hparts := hreads.parts_eq rfl hsettle
  subst hparts
  refine ⟨r'.choices, hresolved, fun o hvalue => ?_⟩
  have hholds := (hreads.holds hvalue (.start o)).settlePending hvalue hsettle
  have hvalues := (given_rewrite o none (parts args) args).1
  rw [← normalizeFrom_eq, ← Expecting.parts_argument] at hvalues
  obtain ⟨⟨written, hwritten, hgathers, hcount⟩, honce⟩ := hholds
  have hall : valuesOf args o = written := by
    rw [Reading.pending_of_settlePending hsettle, Pending.held, List.append_nil,
      List.nil_append, ← Expecting.parts_argument] at hwritten
    exact hvalues.symm.trans hwritten
  rw [hall]
  refine ⟨hgathers, fun hrepeats => ?_⟩
  rw [hrepeats, hcount] at honce
  exact honce.resolve_left Bool.false_ne_true

/-- An option that is no list is given nothing and stays as it is by default, or holds the one
value. -/
theorem read_single {program : String} {settings : Settings} {targets : List Path}
    (h : read program args = .ok (settings, targets)) (hvalue : o.takesValue)
    (hmodal : o.modal = false) (honce : o.repeats = false) :
    valuesOf args o = [] ∧ settings.given o = ({} : Settings).given o ∨
      ∃ s v, valuesOf args o = [s] ∧ o.kind.read s = .ok v ∧ settings.given o = [v] := by
  obtain ⟨c, hresolved, hgathers⟩ := read_gathers h
  obtain ⟨hgathers, hlength⟩ := hgathers o hvalue
  have hgiven : c.given o = settings.given o := by
    rw [← Choices.given_resolved hmodal, hresolved]
  rw [← Choices.given_start hmodal, ← hgiven]
  exact hgathers.one honce (hlength honce)

end CommandLine

/-- How settings come from a command line, the defaults of a project and an environment. -/
structure Settings.Layered (s : Settings) (args : List String) (d : Option ProjectDefaults)
    (e : Environment) : Prop where
  /-- Each value on the command line is one for its option. -/
  readable : ∀ o, o.takesValue → ∀ text ∈ CommandLine.valuesOf args o, ∃ v, o.kind.read text = .ok v
  once : ∀ o, o.takesValue → o.repeats = false → (CommandLine.valuesOf args o).length ≤ 1
  launchCmd : s.launchCmd = (CommandLine.valuesOf args .launchcmd).head?.or
    ((d.bind fun d => d.launchCmd).or (e.get? "CHPL_TEST_LAUNCHCMD"))
  trials_given : ∀ text ∈ CommandLine.valuesOf args .numtrials,
    CommandLine.readCount text = .ok s.trials
  trials : CommandLine.valuesOf args .numtrials = [] → s.trials =
    ((e.get? "CHPL_TEST_NUM_TRIALS").bind fun v => Text.readCount (Text.trim v)).getD 1
  /-- No locales at all can be asked for only where the project asks for none. -/
  locales_given : ∀ text ∈ CommandLine.valuesOf args .numlocales, ∀ n,
    CommandLine.readCount text = .ok n → n ≠ 0 ∨ (d.bind fun d => d.numLocales).getD 0 = 0 →
    s.numLocales = n
  locales : CommandLine.valuesOf args .numlocales = [] →
    s.numLocales = (d.bind fun d => d.numLocales).getD 0
  compopts : s.compopts = (d.elim [] fun d => d.compopts) ++ CommandLine.valuesOf args .compopts
  execopts : s.execopts = (d.elim [] fun d => d.execopts) ++ CommandLine.valuesOf args .execopts
  preexec : s.preexec.map Path.text =
    (d.elim [] fun d => d.preexec.map Path.text) ++ CommandLine.valuesOf args .syspreexec
  prediff : s.prediff.map Path.text =
    (d.elim [] fun d => d.prediff.map Path.text) ++ CommandLine.valuesOf args .sysprediff

namespace Settings

/-- The settings of a session, where `o` was asked for. -/
def under (o : Settings) (d : Option ProjectDefaults) (e : Environment) : Settings :=
  ((d.elim o o.applyDefaults).applyEnvironment e).normalize

variable {o : Settings} {d : Option ProjectDefaults} {e : Environment}

theorem launchCmd_under : (o.under d e).launchCmd =
    o.launchCmd.or ((d.bind fun d => d.launchCmd).or (e.get? "CHPL_TEST_LAUNCHCMD")) := by
  cases d with
  | none => rfl
  | some d => exact Option.or_assoc

theorem numTrials_under : (o.under d e).numTrials = o.numTrials.or
    ((e.get? "CHPL_TEST_NUM_TRIALS").bind fun v => Text.readCount (Text.trim v)) := by
  cases d <;> rfl

theorem numLocales_under : (o.under d e).numLocales =
    if o.numLocales = 0 then (d.bind fun d => d.numLocales).getD 0 else o.numLocales := by
  cases d with
  | none =>
    show o.numLocales = _
    split
    · assumption
    · rfl
  | some d => rfl

theorem lists_under : (o.under d e).compopts = (d.elim [] fun d => d.compopts) ++ o.compopts ∧
    (o.under d e).execopts = (d.elim [] fun d => d.execopts) ++ o.execopts ∧
    (o.under d e).preexec = (d.elim [] fun d => d.preexec) ++ o.preexec ∧
    (o.under d e).prediff = (d.elim [] fun d => d.prediff) ++ o.prediff := by
  cases d <;> exact ⟨rfl, rfl, rfl, rfl⟩

theorem layered {program : String} {args : List String} {targets : List Path}
    (h : CommandLine.read program args = .ok (o, targets)) : (o.under d e).Layered args d e := by
  have hagreed := CommandLine.read_agrees h
  obtain ⟨hcompopts, hexecopts, hpreexec, hprediff⟩ := lists_under (o := o) (d := d) (e := e)
  obtain ⟨c, -, hgathers⟩ := CommandLine.read_gathers h
  have hlaunch := CommandLine.read_single (o := .launchcmd) h rfl rfl rfl
  have htrials := CommandLine.read_single (o := .numtrials) h rfl rfl rfl
  have hlocales := CommandLine.read_single (o := .numlocales) h rfl rfl rfl
  constructor
  · intro o' hvalue text htext
    exact (hgathers o' hvalue).1.readable htext
  · intro o' hvalue
    exact (hgathers o' hvalue).2
  · rw [launchCmd_under]
    rcases hlaunch with ⟨hnone, hheld⟩ | ⟨text, v, hone, hread, hheld⟩
    · have hchoice : o.launchCmd = none := toList_injective hheld
      rw [hnone, hchoice]
      rfl
    · have hchoice : o.launchCmd = some v := toList_injective hheld
      cases hread
      rw [hone, hchoice]
      rfl
  · intro text htext
    rcases htrials with ⟨hnone, -⟩ | ⟨text', v, hone, hread, hheld⟩
    · rw [hnone] at htext
      cases htext
    · have hchoice : o.numTrials = some v := toList_injective hheld
      rw [hone, List.mem_singleton] at htext
      rw [htext, trials, numTrials_under, hchoice]
      exact hread
  · intro hnone
    rcases htrials with ⟨-, hheld⟩ | ⟨text', v, hone, -, -⟩
    · have hchoice : o.numTrials = none := toList_injective hheld
      rw [trials, numTrials_under, hchoice, Option.none_or]
    · rw [hnone] at hone
      cases hone
  · intro text htext n hn hcount
    rcases hlocales with ⟨hnone, -⟩ | ⟨text', v, hone, hread, hheld⟩
    · rw [hnone] at htext
      cases htext
    · have hchoice : o.numLocales = v := List.singleton_inj.mp hheld
      rw [hone, List.mem_singleton] at htext
      subst htext
      have hsame : v = n := Except.ok.inj (hread.symm.trans hn)
      rw [numLocales_under, hchoice, hsame]
      split
      · next hzero => rw [hcount.resolve_left (absurd hzero), hzero]
      · rfl
  · intro hnone
    rcases hlocales with ⟨-, hheld⟩ | ⟨text', v, hone, -, -⟩
    · have hchoice : o.numLocales = 0 := List.singleton_inj.mp hheld
      rw [numLocales_under, if_pos hchoice]
    · rw [hnone] at hone
      cases hone
  · rw [hcompopts, hagreed.compopts]
    rfl
  · rw [hexecopts, hagreed.execopts]
    rfl
  · rw [hpreexec, List.map_append, hagreed.preexec]
    cases d <;> rfl
  · rw [hprediff, List.map_append, hagreed.prediff]
    cases d <;> rfl

end Settings

namespace Session

/-- The defaults are those of the project that the session starts in. -/
theorem create_layered {program : String} {args : List String} {o : Settings} {targets : List Path}
    {e : Environment} {cwd : Path} {m m' : Machine} {s : Session}
    (hread : CommandLine.read program args = .ok (o, targets))
    (hmade : (Session.create o e cwd).on m = (.ok s, m')) : ∃ layout m₁ d m₂,
      (Layout.discover (prepareEnvironment e) o.testRoot cwd).on m = (.ok layout, m₁) ∧
        (ProjectDefaults.discover cwd).on m₁ = (.ok d, m₂) ∧ s.settings.Layered args d e := by
  obtain ⟨layout, m₁, d, m₂, hlayout, hdefaults, -, hsettings⟩ := create_ok hmade
  refine ⟨layout, m₁, d, m₂, hlayout, hdefaults, ?_⟩
  have hlaunch : (prepareEnvironment e).get? "CHPL_TEST_LAUNCHCMD" = e.get? "CHPL_TEST_LAUNCHCMD" :=
    get?_prepared (by decide) (by decide)
  have htrials : (prepareEnvironment e).get? "CHPL_TEST_NUM_TRIALS" =
      e.get? "CHPL_TEST_NUM_TRIALS" := get?_prepared (by decide) (by decide)
  have hlayered : (o.under d (prepareEnvironment e)).Layered args d (prepareEnvironment e) :=
    Settings.layered hread
  rw [hsettings]
  exact { hlayered with
    launchCmd := hlaunch ▸ hlayered.launchCmd
    trials := htrials ▸ hlayered.trials }

end Session

namespace Bench

/-- A project that asks for four locales, and a launch command of its own. -/
def configured : Machine :=
  let text := "\x7b\"launch_cmd\": \"srun\", \"num_locales\": 4\x7d"
  { silent with
    files :=
      { silent.files with
        entries := silent.files.entries ++
          [([".start-test.json"], .file 2 .newFile (Text.encode text))]
        serial := 3 } }

/-- What is asked for with two locales and no launch command. -/
def asked : List String := ["-numlocales=2", "-launchcmd", ""]

theorem create_layered_asked : ∃ o targets s m',
    CommandLine.read "start_test" asked = .ok (o, targets) ∧
      (Session.create o inherited ⟨"/"⟩).on configured = (.ok s, m') ∧
      s.settings.launchCmd = some "" ∧ s.settings.numLocales = 2 := by
  have hnumber : CommandLine.named? "numlocales=2".toList = some (.numlocales, some "2") := by
    decide +kernel
  have hcommand : CommandLine.named? "launchcmd".toList = some (.launchcmd, none) := by
    decide +kernel
  have hreads : CommandLine.Reads {} ["--numlocales=2", "--launchcmd", ""] _ _ :=
    .option rfl (by decide +kernel) hnumber (CommandLine.Reading.long_named hnumber) <|
    .option rfl (by decide +kernel) hcommand (CommandLine.Reading.long_named hcommand) <|
    .value rfl (.nil _)
  have hread : CommandLine.read "start_test" asked =
      .ok ({ launchCmd := some "", numLocales := 2 }, []) :=
    hreads.accepted (by decide +kernel) rfl
  obtain ⟨s, m', hmade⟩ : ∃ s m',
      (Session.create { launchCmd := some "", numLocales := 2 } inherited ⟨"/"⟩).on configured =
        (.ok s, m') := Job.on_of_isOk (by decide +kernel)
  obtain ⟨layout, m₁, d, m₂, -, -, hlayered⟩ := Session.create_layered hread hmade
  have hlaunch : CommandLine.valuesOf asked .launchcmd = [""] := by decide +kernel
  have hlocales : CommandLine.valuesOf asked .numlocales = ["2"] := by decide +kernel
  refine ⟨_, _, s, m', hread, hmade, ?_, ?_⟩
  · rw [hlayered.launchCmd, hlaunch]
    rfl
  · have hgiven : "2" ∈ CommandLine.valuesOf asked .numlocales :=
      hlocales ▸ List.mem_singleton_self "2"
    exact hlayered.locales_given "2" hgiven 2 rfl (.inl (by decide))

/-- No locales at all cannot be asked for where a project asks for some. -/
theorem no_locales_lost : ∃ o targets s m',
    CommandLine.read "start_test" ["--numlocales=0"] = .ok (o, targets) ∧
      CommandLine.valuesOf ["--numlocales=0"] .numlocales = ["0"] ∧
      CommandLine.readCount "0" = .ok 0 ∧
      (Session.create o inherited ⟨"/"⟩).on configured = (.ok s, m') ∧
      s.settings.numLocales = 4 := by
  have hnumber : CommandLine.named? "numlocales=0".toList = some (.numlocales, some "0") := by
    decide +kernel
  have hreads : CommandLine.Reads {} ["--numlocales=0"] _ _ :=
    .option rfl (by decide +kernel) hnumber (CommandLine.Reading.long_named hnumber) (.nil _)
  have hread : CommandLine.read "start_test" ["--numlocales=0"] = .ok ({}, []) :=
    hreads.accepted (by decide +kernel) rfl
  have hvalues : CommandLine.valuesOf ["--numlocales=0"] .numlocales = ["0"] := by decide +kernel
  have hlocales : (((Session.create {} inherited ⟨"/"⟩).on configured).1.toOption.map
      fun s => s.settings.numLocales) = some 4 := by decide +kernel
  cases hmade : (Session.create {} inherited ⟨"/"⟩).on configured with
  | mk answer m' =>
    rw [hmade] at hlocales
    cases answer with
    | error error => cases hlocales
    | ok s => exact ⟨_, _, s, m', hread, hvalues, rfl, hmade, Option.some.inj hlocales⟩

end Bench

end Regression
