import Regression.CommandLine.Parse

namespace Regression

open CommandLine

/-- A switch that is turned is given once. -/
def switched (turned : Bool) : List Unit :=
  if turned then [()] else []

/-- What settings give to an option: its values in order, or nothing. The ways to choose a futures mode
other than by its number are not seen in settings. -/
def Settings.given (s : Settings) : (o : Opt) → List o.kind.Value
  | .execopts => s.execopts
  | .compiler => s.compiler.toList
  | .launchcmd => s.launchCmd.toList
  | .compopts => s.compopts
  | .logfile => s.logFile.toList
  | .memleaks => switched s.memLeaks
  | .memleakslog => s.memLeaksLog.toList
  | .valgrind => switched s.valgrind
  | .valgrindexe => switched s.valgrindExe
  | .syspreexec => s.preexec
  | .sysprediff => s.prediff
  | .futuresMode => [s.futuresMode]
  | .cleanOnly => switched s.cleanOnly
  | .norecurse => switched !s.recurse
  | .performance => switched s.performance
  | .perflabel => [s.perfLabel]
  | .performanceDescription => [s.performanceDescription]
  | .performanceConfigs => s.performanceConfigs.toList
  | .compperformance => switched s.compPerformance
  | .compperformanceDescription => [s.compPerformanceDescription]
  | .numtrials => s.numTrials.toList
  | .genGraphs => switched s.genGraphs
  | .nodisplaygraphrange => switched !s.graphsDispRange
  | .graphsgendefault => [s.graphsGenDefault]
  | .startdate => s.startDate.toList
  | .gengraphopts => [s.genGraphOpts]
  | .compOnly => switched s.compOnly
  | .numlocales => [s.numLocales]
  | .maxLocales => [s.maxLocales]
  | .multilocaleOnly => switched s.multilocaleOnly
  | .nostdinredirect => switched s.noStdinRedirect
  | .stdinredirect => switched s.stdinRedirect
  | .launchertimeout => s.launcherTimeout.toList
  | .noChplHomeWarn => switched !s.chplHomeWarn
  | .progress => switched s.progress
  | .testRoot => s.testRoot.toList
  | .junitXml => switched s.junitXml
  | .junitXmlFile => s.junitXmlFile.toList
  | .junitRemovePrefix => s.junitRemovePrefix.toList
  | .respectSkipifs => switched s.respectSkipifs
  | .respectNotests => switched s.respectNotests
  | .futures | .futuresonly | .futuresskipif | .help | .version => []

/-- What has been given to an option while the futures mode is still open. -/
def CommandLine.Choices.given (c : Choices) : (o : Opt) → List o.kind.Value
  | .futures => switched c.futures
  | .futuresonly => switched c.futuresOnly
  | .futuresskipif => switched c.futuresSkipIf
  | .futuresMode => c.futuresMode.toList
  | o => c.settings.given o

theorem switched_injective {b b' : Bool} (h : switched b = switched b') : b = b' := by
  cases b <;> cases b' <;> first | rfl | cases h

theorem toList_injective {α : Type} {a a' : Option α} (h : a.toList = a'.toList) : a = a' := by
  cases a <;> cases a' <;> first | rfl | cases h; rfl | cases h

attribute [ext] Settings

/-- Settings are what they give to the options. -/
theorem Settings.ext_given {s s' : Settings} (h : ∀ o, s.given o = s'.given o) : s = s' :=
  Settings.ext
    (toList_injective (h .compiler)) (h .compopts) (h .execopts) (toList_injective (h .launchcmd))
    (toList_injective (h .logfile)) (switched_injective (h .memleaks))
    (toList_injective (h .memleakslog)) (switched_injective (h .valgrind))
    (switched_injective (h .valgrindexe)) (h .syspreexec) (h .sysprediff)
    (List.singleton_inj.mp (h .futuresMode)) (switched_injective (h .cleanOnly))
    (Bool.not_inj (switched_injective (h .norecurse))) (switched_injective (h .performance))
    (List.singleton_inj.mp (h .perflabel)) (List.singleton_inj.mp (h .performanceDescription))
    (toList_injective (h .performanceConfigs)) (switched_injective (h .compperformance))
    (List.singleton_inj.mp (h .compperformanceDescription)) (toList_injective (h .numtrials))
    (switched_injective (h .genGraphs))
    (Bool.not_inj (switched_injective (h .nodisplaygraphrange)))
    (List.singleton_inj.mp (h .graphsgendefault)) (toList_injective (h .startdate))
    (List.singleton_inj.mp (h .gengraphopts)) (switched_injective (h .compOnly))
    (List.singleton_inj.mp (h .numlocales)) (List.singleton_inj.mp (h .maxLocales))
    (switched_injective (h .multilocaleOnly)) (switched_injective (h .nostdinredirect))
    (switched_injective (h .stdinredirect)) (toList_injective (h .launchertimeout))
    (Bool.not_inj (switched_injective (h .noChplHomeWarn))) (switched_injective (h .progress))
    (toList_injective (h .testRoot)) (switched_injective (h .junitXml))
    (toList_injective (h .junitXmlFile)) (toList_injective (h .junitRemovePrefix))
    (switched_injective (h .respectSkipifs)) (switched_injective (h .respectNotests))

namespace CommandLine

/-- Help and version are asked for and choose nothing. -/
def Opt.asks (o : Opt) : Bool :=
  o == .help || o == .version

theorem asks_of_repeats {o : Opt} (h : o.repeats) : o.asks = false := by
  cases o <;> first | rfl | cases h

theorem takesValue_of_repeats {o : Opt} (h : o.repeats) : o.takesValue := by
  cases o <;> first | rfl | cases h

theorem given_asks {o : Opt} (h : o.asks) (s : Settings) : s.given o = [] := by
  cases o <;> first | rfl | cases h

theorem length_switched_le (turned : Bool) : (switched turned).length ≤ 1 := by
  cases turned <;> decide

theorem length_given_le {o : Opt} (h : o.repeats = false) (s : Settings) :
    (s.given o).length ≤ 1 := by
  cases o <;> first
    | exact Option.length_toList_le
    | exact length_switched_le _
    | exact Nat.le_refl 1
    | exact Nat.zero_le 1
    | cases h

/-- An option that settings give nothing to has nothing by default. -/
theorem given_default {s : Settings} {o : Opt} (h : s.given o = []) :
    ({} : Settings).given o = [] := by
  cases o <;> first | rfl | cases h

/-- What is held of an option once one more value is given to it: a list grows at its end. -/
def Opt.gather (o : Opt) (held : List o.kind.Value) (v : o.kind.Value) : List o.kind.Value :=
  if o.repeats then held ++ [v] else [v]

namespace Choices

/-- Taking in an option touches no other one. -/
theorem given_take_other (c : Choices) {o o' : Opt} (h : o' ≠ o) (v : o.kind.Value) :
    (c.take o v).given o' = c.given o' := by
  cases o <;> cases o' <;> first | rfl | exact absurd rfl h

theorem given_take_self (c : Choices) {o : Opt} (h : o.asks = false) (v : o.kind.Value) :
    (c.take o v).given o = o.gather (c.given o) v := by
  cases o <;> first | rfl | cases h

theorem targets_take (c : Choices) (o : Opt) (v : o.kind.Value) :
    (c.take o v).targets = c.targets := by
  cases o <;> rfl

end Choices

theorem foldl_gather_list {o : Opt} (h : o.repeats) (held vs : List o.kind.Value) :
    vs.foldl o.gather held = held ++ vs := by
  induction vs generalizing held with
  | nil => simp
  | cons v vs ih =>
    have hgather : o.gather held v = held ++ [v] := if_pos h
    rw [List.foldl_cons, ih, hgather, List.append_assoc, List.singleton_append]

/-- Settings are what their values gather to, starting from what is so by default. -/
theorem foldl_gather_given (s : Settings) (o : Opt) :
    (s.given o).foldl o.gather (({} : Settings).given o) = s.given o := by
  cases hrepeats : o.repeats with
  | true =>
    have hdefault : ({} : Settings).given o = [] := by
      cases o <;> first | rfl | cases hrepeats
    rw [foldl_gather_list hrepeats, hdefault, List.nil_append]
  | false =>
    have hlength := length_given_le hrepeats s
    match hgiven : s.given o with
    | [] => exact given_default hgiven
    | [v] => exact if_neg (by simp [hrepeats])
    | v :: v' :: vs => simp [hgiven] at hlength

/-- The options that choose the futures mode. -/
def Opt.modal : Opt → Bool
  | .futures | .futuresonly | .futuresskipif | .futuresMode => true
  | _ => false

namespace Choices

variable {c : Choices} {o : Opt}

theorem given_start (h : o.modal = false) : ({} : Choices).given o = ({} : Settings).given o := by
  cases o <;> first | rfl | cases h

theorem given_resolved (h : o.modal = false) : c.resolved.1.given o = c.given o := by
  cases o <;> first | rfl | cases h

/-- Where no switch chooses a futures mode it is the one given by its number, or none runs. -/
theorem resolvedMode_of_given (hfutures : c.given .futures = []) (honly : c.given .futuresonly = [])
    (hskipIf : c.given .futuresskipif = []) :
    c.resolvedMode = (c.given .futuresMode).headD .skip := by
  have hf : c.futures = false := switched_injective hfutures
  have ho : c.futuresOnly = false := switched_injective honly
  have hs : c.futuresSkipIf = false := switched_injective hskipIf
  rw [resolvedMode, hf, ho, hs]
  show _ = c.futuresMode.toList.headD .skip
  cases c.futuresMode <;> rfl

end Choices

end CommandLine

end Regression
