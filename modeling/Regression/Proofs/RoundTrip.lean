import Regression.Proofs.Choosing
import Regression.Proofs.Normalizing
import Regression.Proofs.Reading
import Regression.Proofs.Values

namespace Regression.CommandLine

/-- An option with its value, as it stands in a command line. -/
structure Entry where
  option : Opt
  value : option.kind.Value
  name : String
  named : name ∈ option.names
  /-- It is written after a single dash. -/
  single : Bool

variable {s : Settings} {c : Choices} {r : Reading} {o : Opt} {e : Entry} {entries : List Entry}

namespace Entry

/-- A value stands behind the name in one argument. -/
def arg (e : Entry) : String :=
  spelt e.single e.name (e.option.kind.written e.value)

def value? (e : Entry) (o : Opt) : Option o.kind.Value :=
  if h : e.option = o then some (h ▸ e.value) else none

theorem value?_self (e : Entry) : e.value? e.option = some e.value :=
  dif_pos rfl

theorem value?_other (h : o ≠ e.option) : e.value? o = none :=
  dif_neg (Ne.symm h)

end Entry

/-- What entries give to an option, in order. -/
def valuesFor (o : Opt) (entries : List Entry) : List o.kind.Value :=
  entries.filterMap fun e => e.value? o

/-- Entries give each option what the settings give it. What is so by default may be left out. -/
def Writes (entries : List Entry) (s : Settings) : Prop :=
  ∀ o, valuesFor o entries = s.given o ∨
    valuesFor o entries = [] ∧ s.given o = ({} : Settings).given o

/-- No path in the settings is empty, and no count is past its bound. -/
def Fit (s : Settings) : Prop :=
  ∀ o, ∀ v ∈ s.given o, o.kind.Fits v

theorem valuesFor_cons_self (e : Entry) (entries : List Entry) :
    valuesFor e.option (e :: entries) = e.value :: valuesFor e.option entries :=
  List.filterMap_cons_some e.value?_self

theorem valuesFor_cons_other (h : o ≠ e.option) (entries : List Entry) :
    valuesFor o (e :: entries) = valuesFor o entries :=
  List.filterMap_cons_none (Entry.value?_other h)

theorem value_mem (h : e ∈ entries) : e.value ∈ valuesFor e.option entries :=
  List.mem_filterMap.mpr ⟨e, h, e.value?_self⟩

theorem count_option (o : Opt) (entries : List Entry) :
    (entries.map Entry.option).count o = (valuesFor o entries).length := by
  induction entries with
  | nil => rfl
  | cons e entries ih =>
    by_cases h : o = e.option
    · subst h
      rw [List.map_cons, List.count_cons_self, ih, valuesFor_cons_self, List.length_cons]
    · rw [List.map_cons, List.count_cons_of_ne (Ne.symm h), ih, valuesFor_cons_other h]

namespace Writes

variable (h : Writes entries s)
include h

theorem value_mem_given (he : e ∈ entries) : e.value ∈ s.given e.option := by
  have hmem := value_mem he
  rcases h e.option with heq | ⟨hnil, -⟩
  · exact heq ▸ hmem
  · rw [hnil] at hmem
    cases hmem

theorem asks_eq_false (he : e ∈ entries) : e.option.asks = false := by
  have hmem := h.value_mem_given he
  cases hasks : e.option.asks with
  | false => rfl
  | true => rw [given_asks hasks] at hmem; cases hmem

theorem count_le (hrepeats : o.repeats = false) : (entries.map Entry.option).count o ≤ 1 := by
  rw [count_option]
  rcases h o with heq | ⟨hnil, -⟩
  · exact heq ▸ length_given_le hrepeats s
  · exact hnil ▸ Nat.zero_le 1

end Writes

/-- Takes in one entry after another. -/
def Reading.addAll (r : Reading) (entries : List Entry) : Reading :=
  entries.foldl (fun r e => r.add e.option e.value) r

theorem given_addAll (hasks : ∀ e ∈ entries, e.option.asks = false) (r : Reading) (o : Opt) :
    (r.addAll entries).choices.given o =
      (valuesFor o entries).foldl o.gather (r.choices.given o) := by
  induction entries generalizing r with
  | nil => rfl
  | cons e entries ih =>
    obtain ⟨he, hentries⟩ := List.forall_mem_cons.mp hasks
    have hrest := ih hentries (r.add e.option e.value)
    rw [Reading.choices_add] at hrest
    by_cases h : o = e.option
    · subst h
      rw [Choices.given_take_self _ he] at hrest
      rw [valuesFor_cons_self]
      exact hrest
    · rw [Choices.given_take_other _ h] at hrest
      rw [valuesFor_cons_other h]
      exact hrest

theorem targets_addAll (r : Reading) (entries : List Entry) :
    (r.addAll entries).choices.targets = r.choices.targets := by
  induction entries generalizing r with
  | nil => rfl
  | cons e entries ih => exact (ih (r.add e.option e.value)).trans (Choices.targets_take _ _ _)

theorem pending_addAll (r : Reading) (entries : List Entry) :
    (r.addAll entries).pending = r.pending := by
  induction entries generalizing r with
  | nil => rfl
  | cons e entries ih => exact ih (r.add e.option e.value)

/-- Entries that are written from settings choose these settings. -/
theorem Writes.resolved (h : Writes entries s) :
    ((({} : Reading).addAll entries).choices.resolved).1 = s := by
  have hgiven := given_addAll (fun e he => h.asks_eq_false he) {}
  have hmodal : ∀ o, s.given o = [] → ({} : Choices).given o = [] →
      (({} : Reading).addAll entries).choices.given o = [] := by
    intro o hnothing hstart
    have hvalues : valuesFor o entries = [] := by
      rcases h o with heq | ⟨hnil, -⟩
      · rw [heq, hnothing]
      · exact hnil
    rw [hgiven, hvalues]
    exact hstart
  refine Settings.ext_given fun o => ?_
  -- The futures mode is open until the end, and is what settings have of the options for it.
  cases ho : o.modal with
  | false =>
    rw [Choices.given_resolved ho, hgiven]
    show (valuesFor o entries).foldl o.gather (({} : Choices).given o) = s.given o
    rw [Choices.given_start ho]
    rcases h o with heq | ⟨hnil, hdefault⟩
    · rw [heq, foldl_gather_given]
    · rw [hnil, hdefault, List.foldl_nil]
  | true =>
    cases o with
    | futures => rfl
    | futuresonly => rfl
    | futuresskipif => rfl
    | futuresMode =>
      have hmode := Choices.resolvedMode_of_given (hmodal .futures rfl rfl)
        (hmodal .futuresonly rfl rfl) (hmodal .futuresskipif rfl rfl)
      refine congrArg (fun mode => [mode]) (hmode.trans ?_)
      rw [hgiven]
      rcases h .futuresMode with heq | ⟨hnil, hdefault⟩
      · rw [heq]
        rfl
      · rw [hnil]
        exact (List.singleton_inj.mp hdefault).symm
    | _ => cases ho

namespace Entry

/-- An entry after two dashes. -/
def long (e : Entry) : String :=
  spelt false e.name (e.option.kind.written e.value)

/-- An entry needs no argument after it. -/
theorem whole (e : Entry) :
    (e.option.takesValue && (e.option.kind.written e.value).isNone) = false := by
  rw [Opt.takesValue, ← Opt.Kind.written_isSome e.option.kind e.value]
  cases e.option.kind.written e.value <;> rfl

theorem normalizeFrom_arg (e : Entry) (args : List String) :
    normalizeFrom .argument (e.arg :: args) = e.long :: normalizeFrom .argument args := by
  have hoption := option?_spelt e.named e.single (e.option.kind.written e.value)
  rw [arg, normalizeFrom_option hoption e.whole, doubled_spelt (Opt.isName e.named), long]

end Entry

theorem normalizeFrom_entries (entries : List Entry) (args : List String) :
    normalizeFrom .argument (entries.map Entry.arg ++ "--" :: args) =
      entries.map Entry.long ++ "--" :: args := by
  induction entries with
  | nil => exact normalizeFrom_ending args
  | cons e entries ih =>
    rw [List.map_cons, List.cons_append, e.normalizeFrom_arg, ih, List.map_cons, List.cons_append]

namespace Reading

/-- An option may be given if it gathers a list or was not given before. -/
theorem accept_written (hnew : e.option.repeats ∨ e.option ∉ r.given)
    (hfits : e.option.kind.Fits e.value) :
    r.accept e.option ((e.option.kind.written e.value).getD "") = .ok (r.add e.option e.value) :=
  accept_eq_ok_iff.mpr ⟨hnew, e.value, Opt.Kind.read_written hfits, rfl⟩

theorem long_entry (hpending : r.pending = .nothing) (hasks : e.option.asks = false)
    (hnew : e.option.repeats ∨ e.option ∉ r.given) (hfits : e.option.kind.Fits e.value) :
    r.long (e.name.toList ++ (inlined (e.option.kind.written e.value)).toList) =
      .ok (r.add e.option e.value) := by
  have haccept := accept_written hnew hfits
  rw [long_named (named?_spelt e.named _), Opt.takesValue,
    ← Opt.Kind.written_isSome e.option.kind e.value]
  cases hwritten : e.option.kind.written e.value with
  | some text =>
    rw [hwritten] at haccept
    simpa [settlePending_nothing hpending, Except.bind] using haccept
  | none =>
    rw [hwritten] at haccept
    simpa [switch_eq hasks, settlePending_nothing hpending, Except.bind] using haccept

theorem readArguments_entry (hpending : r.pending = .nothing) (hasks : e.option.asks = false)
    (hnew : e.option.repeats ∨ e.option ∉ r.given) (hfits : e.option.kind.Fits e.value)
    (args : List String) :
    readArguments r (e.long :: args) = readArguments (r.add e.option e.value) args := by
  have hwaiting : r.waiting = none := by rw [waiting, hpending]
  have hshape := shape_spelt (Opt.isName e.named) (e.option.kind.written e.value)
  rw [Entry.long, readArguments, hwaiting]
  simp only [readArguments.fresh, hshape, long_entry hpending hasks hnew hfits, Except.bind]

theorem readArguments_entries (hpending : r.pending = .nothing)
    (hasks : ∀ e ∈ entries, e.option.asks = false)
    (hfits : ∀ e ∈ entries, e.option.kind.Fits e.value)
    (honce : ∀ o : Opt, o.repeats = false →
      r.given.count o + (entries.map Entry.option).count o ≤ 1) (args : List String) :
    readArguments r (entries.map Entry.long ++ args) = readArguments (r.addAll entries) args := by
  -- What is given and what is still to come are counted together, so that a step only moves one over.
  induction entries generalizing r with
  | nil => rfl
  | cons e entries ih =>
    obtain ⟨hask, hasks⟩ := List.forall_mem_cons.mp hasks
    obtain ⟨hfit, hfits⟩ := List.forall_mem_cons.mp hfits
    have hnew : e.option.repeats ∨ e.option ∉ r.given := by
      cases hrepeats : e.option.repeats with
      | true => exact .inl rfl
      | false =>
        have hcount := honce e.option hrepeats
        rw [List.map_cons, List.count_cons_self] at hcount
        exact .inr (List.count_eq_zero.mp (by omega))
    have honce' : ∀ o : Opt, o.repeats = false →
        (r.add e.option e.value).given.count o + (entries.map Entry.option).count o ≤ 1 := by
      intro o hrepeats
      have hcount := honce o hrepeats
      simp only [add, List.map_cons, List.count_cons] at hcount ⊢
      omega
    rw [List.map_cons, List.cons_append, readArguments_entry hpending hask hnew hfit,
      ih (r := r.add e.option e.value) hpending hasks hfits honce']
    rfl

theorem readTargets_targets {values : List String} (h : r.pending = .targets values)
    (args : List String) :
    readTargets r args = .ok { r with pending := .targets (values ++ args) } := by
  induction args generalizing r values with
  | nil => rw [readTargets, List.append_nil, ← h]
  | cons arg args ih =>
    rw [readTargets, target, h]
    simp only [Except.bind]
    rw [ih rfl, List.append_assoc, List.singleton_append]

/-- What follows the end of the options becomes the targets. -/
theorem settle_readTargets (hpending : r.pending = .nothing) {args : List String}
    (hfull : ∀ arg ∈ args, arg ≠ "") : ∃ r', readTargets r args = .ok r' ∧
      r'.settlePending = .ok (r.addTargets (args.map Path.mk)) := by
  obtain ⟨choices, given, pending⟩ := r
  cases hpending
  cases args with
  | nil =>
    rw [List.map_nil, addTargets, List.append_nil]
    exact ⟨_, rfl, rfl⟩
  | cons arg args =>
    have hread : readTargets ⟨choices, given, .nothing⟩ (arg :: args) =
        .ok ⟨choices, given, .targets (arg :: args)⟩ :=
      readTargets_targets (r := ⟨choices, given, .targets [arg]⟩) rfl args
    exact ⟨_, hread, acceptTargets_eq_ok_iff.mpr ⟨hfull, rfl⟩⟩

end Reading

/-- An option under the name that messages give it. -/
def Entry.plain (o : Opt) (v : o.kind.Value) : Entry :=
  ⟨o, v, o.name, List.mem_cons_self, false⟩

theorem valuesFor_append (o : Opt) (entries entries' : List Entry) :
    valuesFor o (entries ++ entries') = valuesFor o entries ++ valuesFor o entries' :=
  List.filterMap_append

theorem valuesFor_plain_self (vs : List o.kind.Value) :
    valuesFor o (vs.map (Entry.plain o)) = vs := by
  induction vs with
  | nil => rfl
  | cons v vs ih => exact (valuesFor_cons_self (.plain o v) _).trans (congrArg (v :: ·) ih)

theorem valuesFor_plain_other {o' : Opt} (h : o ≠ o') (vs : List o'.kind.Value) :
    valuesFor o (vs.map (Entry.plain o')) = [] := by
  induction vs with
  | nil => rfl
  | cons v vs ih => exact (valuesFor_cons_other (e := .plain o' v) h _).trans ih

/-- Settings written option after option, for the options of a list. -/
def entriesFrom (s : Settings) (os : List Opt) : List Entry :=
  os.flatMap fun o => (s.given o).map (Entry.plain o)

variable {os : List Opt}

theorem valuesFor_entriesFrom_other (s : Settings) (h : o ∉ os) :
    valuesFor o (entriesFrom s os) = [] := by
  induction os with
  | nil => rfl
  | cons o' os ih =>
    obtain ⟨hne, hos⟩ := List.ne_and_not_mem_of_not_mem_cons h
    rw [entriesFrom, List.flatMap_cons, valuesFor_append, valuesFor_plain_other hne]
    exact ih hos

theorem valuesFor_entriesFrom (s : Settings) (hnodup : os.Nodup) (h : o ∈ os) :
    valuesFor o (entriesFrom s os) = s.given o := by
  induction os with
  | nil => cases h
  | cons o' os ih =>
    obtain ⟨hfresh, hnodup⟩ := List.nodup_cons.mp hnodup
    rw [entriesFrom, List.flatMap_cons, valuesFor_append]
    rcases List.mem_cons.mp h with rfl | hmem
    · rw [valuesFor_plain_self]
      exact (congrArg _ (valuesFor_entriesFrom_other s hfresh)).trans (List.append_nil _)
    · have hne : o ≠ o' := fun heq => hfresh (heq ▸ hmem)
      rw [valuesFor_plain_other hne]
      exact ih hnodup hmem

/-- Any settings can be written, option after option. -/
theorem writes_entriesFrom (s : Settings) : Writes (entriesFrom s Opt.all) s :=
  fun o => .inl (valuesFor_entriesFrom s (by decide) o.mem_all)

/-- A command line that is written from settings and targets is read as these. -/
theorem read_entries (program : String) (targets : List Path) (hwrites : Writes entries s)
    (hfit : Fit s) (htargets : ∀ t ∈ targets, t.text ≠ "") :
    read program (entries.map Entry.arg ++ "--" :: targets.map Path.text) = .ok (s, targets) := by
  have hnormal : read program (entries.map Entry.arg ++ "--" :: targets.map Path.text) =
      parse (entries.map Entry.long ++ "--" :: targets.map Path.text) :=
    congrArg parse (normalizeFrom_entries entries _)
  have hentries := Reading.readArguments_entries (r := {}) rfl (fun e he => hwrites.asks_eq_false he)
    (fun e he => hfit _ _ (hwrites.value_mem_given he))
    (fun o hrepeats => by simpa using hwrites.count_le hrepeats)
    ("--" :: targets.map Path.text)
  have hpending := pending_addAll {} entries
  have hwaiting : (({} : Reading).addAll entries).waiting = none := by
    rw [Reading.waiting, hpending]
  obtain ⟨r, hread, hsettle⟩ := Reading.settle_readTargets hpending (List.forall_mem_map.mpr htargets)
  have htaken : (({} : Reading).addAll entries).choices.targets ++
      (targets.map Path.text).map Path.mk = targets := by
    rw [targets_addAll, List.map_map]
    exact List.map_id targets
  rw [hnormal, parse_eq_ok_iff]
  refine ⟨r, ?_, _, hsettle, ?_⟩
  · rw [hentries, readArguments, hwaiting]
    simp only [readArguments.fresh, shape_ending, hread]
  · exact Prod.ext hwrites.resolved htaken

/-- Values with dashes, blanks and marks of their own, under several names. -/
def variedEntries : List Entry :=
  [⟨.numtrials, (4294967295 : Nat), "num-trials", by decide, true⟩,
    ⟨.compopts, "--", "compopts", by decide, true⟩,
    ⟨.gengraphopts, "-futures", "genGraphOpts", by decide, true⟩,
    ⟨.norecurse, (), "no-recurse", by decide, false⟩,
    ⟨.compopts, "-s a=b", "compopts", by decide, false⟩,
    ⟨.futuresMode, FuturesMode.skipIf, "futures-mode", by decide, true⟩,
    ⟨.perflabel, "", "perflabel", by decide, false⟩,
    ⟨.testRoot, (⟨"-r"⟩ : Path), "test-root", by decide, true⟩]

def variedSettings : Settings where
  compopts := ["--", "-s a=b"]
  futuresMode := .skipIf
  recurse := false
  perfLabel := ""
  numTrials := some 4294967295
  genGraphOpts := "-futures"
  testRoot := some ⟨"-r"⟩

theorem read_entries_varied : Writes variedEntries variedSettings ∧
    read "start_test" (variedEntries.map Entry.arg ++ ["--", "-futures", "--"]) =
      .ok (variedSettings, [⟨"-futures"⟩, ⟨"--"⟩]) := by
  have hwrites : Writes variedEntries variedSettings := by
    intro o
    cases o <;> first | exact .inl rfl | exact .inr ⟨rfl, rfl⟩
  have hfit : Fit variedSettings := by
    intro o v hv
    cases o <;> try trivial
    case numtrials =>
      obtain rfl := List.mem_singleton.mp hv
      exact Nat.le_refl Text.countLimit
    case numlocales =>
      obtain rfl := List.mem_singleton.mp hv
      exact Nat.zero_le Text.countLimit
    case maxLocales =>
      obtain rfl := List.mem_singleton.mp hv
      exact Nat.zero_le Text.countLimit
    case testRoot =>
      obtain rfl := List.mem_singleton.mp hv
      exact (by decide : "-r" ≠ "")
  refine ⟨hwrites, ?_⟩
  exact read_entries "start_test" [⟨"-futures"⟩, ⟨"--"⟩] hwrites hfit (by decide)

end Regression.CommandLine
