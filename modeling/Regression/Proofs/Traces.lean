import Regression.Proofs.Cleaning
import Regression.Proofs.Variables

namespace Regression

variable {α β ρ : Type} {A : Command → Prop}

/-- However a job ends, the commands that it has started by then are as `T` says. -/
def Job.Starts (j : Job α) (T : List Command → Prop) : Prop :=
  ∀ m, ∃ asked, (j.on m).2.started = m.started ++ asked ∧ T asked

namespace Job.Starts

theorem of_stays {j : Job α} (h : ∀ m, j.Stays (Onward A m)) :
    j.Starts fun asked => ∀ c ∈ asked, A c :=
  fun m => (h m m .refl).1.started

/-- A second job is reached only if the first one succeeds. -/
theorem bind {j : Job α} {f : α → Job β} {T T' U : List Command → Prop} (hj : j.Starts T)
    (hf : ∀ a, (f a).Starts T') (hstop : ∀ l, T l → U l) (hgo : ∀ l l', T l → T' l' → U (l ++ l')) :
    (j >>= f).Starts U := by
  intro m
  obtain ⟨first, hfirst, hT⟩ := hj m
  rw [Job.on_bind]
  cases hrun : j.on m with
  | mk result m₁ =>
    rw [hrun] at hfirst
    cases result with
    | error e => exact ⟨first, hfirst, hstop first hT⟩
    | ok a =>
      obtain ⟨rest, hrest, hT'⟩ := hf a m₁
      refine ⟨first ++ rest, ?_, hgo first rest hT hT'⟩
      rw [hrest, hfirst, List.append_assoc]

end Job.Starts

/-- Commands item by item, which may break off after any of them. -/
inductive Segments (S : ρ → Command → Prop) : List ρ → List Command → Prop where
  | stop (xs : List ρ) : Segments S xs []
  | next {x : ρ} {xs : List ρ} {here rest : List Command} (hhere : ∀ c ∈ here, S x c)
    (hrest : Segments S xs rest) : Segments S (x :: xs) (here ++ rest)

theorem Segments.mono {S S' : ρ → Command → Prop} {xs : List ρ} {asked : List Command}
    (h : Segments S xs asked) (hw : ∀ x c, S x c → S' x c) : Segments S' xs asked := by
  induction h with
  | stop xs => exact .stop xs
  | next hhere _ ih => exact .next (fun c hc => hw _ c (hhere c hc)) ih

theorem Job.Starts.each {S : ρ → Command → Prop} {f : ρ → Job α}
    (h : ∀ x, (f x).Starts fun asked => ∀ c ∈ asked, S x c) (xs : List ρ) :
    Job.Starts (forIn xs PUnit.unit fun x _ => f x >>= fun _ => pure (.yield PUnit.unit))
      (Segments S xs) := by
  induction xs with
  | nil => exact fun m => ⟨[], (List.append_nil _).symm, .stop []⟩
  | cons x xs ih =>
    have hrest : ∀ _ : α, Job.Starts (do
        let _ ← (pure (.yield PUnit.unit) : Job (ForInStep PUnit))
        forIn xs PUnit.unit fun x _ => f x >>= fun _ => pure (.yield PUnit.unit))
        (Segments S xs) := by
      intro _
      rw [pure_bind]
      exact ih
    rw [List.forIn_cons, bind_assoc]
    apply (h x).bind hrest
    · intro here hhere
      rw [← List.append_nil here]
      exact .next hhere (.stop xs)
    · exact fun here rest hhere hrest => .next hhere hrest

/-- The commands that a session starts, in order, by what they are for. -/
structure Parts where
  setup : List Command := []
  files : List Command := []
  directories : List Command := []
  conclusion : List Command := []
  conversion : List Command := []

/-- Those of the phases. -/
def Parts.tests (r : Parts) : List Command := r.files ++ (r.directories ++ r.conclusion)

def Parts.all (r : Parts) : List Command := r.setup ++ (r.tests ++ r.conversion)

namespace Phases

variable {p : Phases} {tmp : Path}

/-- The tests of the named files. -/
def singles (p : Phases) (files : List Path) : Job Unit := do
  for file in files do
    p.singleFile file

theorem singles_eq (p : Phases) (files : List Path) : p.singles files =
    forIn files PUnit.unit fun file _ =>
      p.singleFile file >>= fun _ => pure (.yield PUnit.unit) :=
  bind_pure_unit

theorem run_singles (p : Phases) (files roots : List Path) : p.run files roots = (do
    p.singles files
    for root in roots do
      p.directory root
    p.conclude) := by
  rw [run_eq, singles_eq]

/-- The commands of all phases on a machine: file by file, then for the directories, then at the
end. -/
structure Trace (p : Phases) (files : List Path) (m : Machine) (r : Parts) : Prop where
  singles : ((p.singles files).on m).2.started = m.started ++ r.files
  files : Segments p.AtFile files r.files
  directories : ∀ c ∈ r.directories, p.AtDirectory c
  conclusion : ∀ c ∈ r.conclusion, p.AtEnd c

/-- What comes before and after the phases does not count. -/
theorem Trace.within {files : List Path} {m : Machine} {r : Parts} (h : p.Trace files m r)
    (setup conversion : List Command) : p.Trace files m { r with setup, conversion } :=
  ⟨h.singles, h.files, h.directories, h.conclusion⟩

/-- What follows on the named files. -/
theorem later_starts (hk : ∀ k ∈ p.plan.compiler, k.tempDatDirectory = timings tmp)
    (roots : List Path) :
    Job.Starts (do
      for root in roots do
        p.directory root
      p.conclude) fun asked => ∃ ofDirectories ofEnd, asked = ofDirectories ++ ofEnd ∧
        (∀ c ∈ ofDirectories, p.AtDirectory c) ∧ ∀ c ∈ ofEnd, p.AtEnd c := by
  have hroots : Job.Starts
      (forIn roots PUnit.unit fun root _ => p.directory root >>= fun _ => pure (.yield PUnit.unit))
      fun asked => ∀ c ∈ asked, p.AtDirectory c := .of_stays fun _ =>
    Job.Keeps.each fun root _ => (Onward.lasting tmp).directory (fun _ hc => hc) root
  have hend : p.conclude.Starts fun asked => ∀ c ∈ asked, p.AtEnd c := .of_stays fun _ =>
    (Onward.lasting tmp).conclude (fun _ hc => hc) hk
  apply hroots.bind fun _ => hend
  · exact fun asked hasked => ⟨asked, [], (List.append_nil _).symm, hasked, nofun⟩
  · exact fun first rest hfirst hrest => ⟨first, rest, rfl, hfirst, hrest⟩

/-- However the phases end, and whatever has failed before. -/
theorem run_starts (hk : ∀ k ∈ p.plan.compiler, k.tempDatDirectory = timings tmp)
    (files roots : List Path) (m : Machine) : ∃ r : Parts,
      ((p.run files roots).on m).2.started = m.started ++ r.tests ∧ p.Trace files m r := by
  have hfile : ∀ file, (p.singleFile file).Starts fun asked => ∀ c ∈ asked, p.AtFile file c :=
    fun file => .of_stays fun _ => (Onward.lasting tmp).singleFile fun _ hc => hc
  obtain ⟨ofFiles, hsingles, hfiles⟩ := Job.Starts.each hfile files m
  rw [← singles_eq] at hsingles
  rw [run_singles, Job.on_bind]
  cases hended : (p.singles files).on m with
  | mk result m₁ =>
    rw [hended] at hsingles
    have htrace : ((p.singles files).on m).2.started = m.started ++ ofFiles := by
      rw [hended, hsingles]
    cases result with
    | error e =>
      refine ⟨{ files := ofFiles }, ?_, htrace, hfiles, nofun, nofun⟩
      rw [Parts.tests, List.append_nil, List.append_nil]
      exact hsingles
    | ok u =>
      obtain ⟨_, hlater, ofDirectories, ofEnd, rfl, hdirectories, hend⟩ := later_starts hk roots m₁
      refine ⟨{ files := ofFiles, directories := ofDirectories, conclusion := ofEnd }, ?_, htrace,
        hfiles, hdirectories, hend⟩
      rw [Parts.tests, ← List.append_assoc, ← hsingles]
      exact hlater

end Phases

/-- A context whose tools keep their own files in a directory, and that names no single test. -/
structure Context.Fresh (tmp : Path) (c : Context) : Prop where
  tmp : c.tmpDirectory = tmp
  oneTest : c.environment.get? Context.oneTestName = none

theorem Context.create_fresh (e : Environment) (util tmp cwd : Path) :
    (Context.create e util tmp cwd).Fresh tmp :=
  ⟨rfl, by rw [create, Environment.get?_remove, if_pos rfl]⟩

/-- The commands that setup can ask for, and those between setup and the tests. -/
def Settings.Preparing (o : Settings) (d : Command) : Prop :=
  ∃ c : Context, c.environment.get? Context.oneTestName = none ∧ o.Prepares c d

/-- No step of setup brings a single test back. -/
theorem Onward.furnishing (tmp : Path) (o : Settings) (m : Machine) :
    Furnishing tmp o.Preparing o (Context.Fresh tmp) (Onward o.Preparing m) where
  toLasting := Onward.lasting tmp
  tmp _ hc := hc.tmp
  set c name value hname hc := by
    refine ⟨hc.tmp, ?_⟩
    rw [Context.set, Environment.get?_set, if_neg (Ne.symm hname)]
    exact hc.oneTest
  compiler _ _ hc := ⟨hc.tmp, hc.oneTest⟩
  asks c _ hc hd := ⟨c, hc.oneTest, hd⟩

/-- Where nothing is allowed, nothing is asked for. -/
theorem Onward.idle {m m' : Machine} (h : Onward (fun _ => False) m m') :
    m'.started = m.started := by
  obtain ⟨asked, hasked, hnone⟩ := h.started
  rw [hasked, List.eq_nil_iff_forall_not_mem.mpr hnone, List.append_nil]

namespace Session

variable {s : Session} {scratch : Scratch}

/-- What a session starts from the machine on which its targets are sorted: the commands of setup and
of its prelude, and then, where there is a context for them, those of the phases. -/
structure Works (s : Session) (scratch : Scratch) (m : Machine) (files directories : List Path)
    (r : Parts) : Prop where
  setup : ∀ c ∈ r.setup, s.settings.Preparing c
  tests : r.tests = [] ∨ ∃ made m₁ roots m₂,
    (s.setup.run (s.created scratch)).on m = (.ok made, m₁) ∧ made.1.Fresh scratch.path ∧
    (s.prelude made files directories).on m₁ = (.ok roots, m₂) ∧ (s.phases made).Trace files m₂ r

/-- However setup and the tests end. -/
theorem execute_starts (s : Session) (scratch : Scratch) (m : Machine)
    (files directories : List Path) : ∃ r : Parts,
      ((s.execute scratch files directories).on m).2.started = m.started ++ (r.setup ++ r.tests) ∧
      s.Works scratch m files directories r := by
  have hfurnish := Onward.furnishing scratch.path s.setup.settings
  have hcreated : (s.created scratch).Fresh scratch.path := Context.create_fresh _ _ _ _
  obtain ⟨hset, hmade⟩ := (hfurnish m).run hcreated m .refl
  obtain ⟨before, hbefore, hsetup⟩ := hset.started
  rw [execute_eq, Job.on_bind]
  cases hrun : (s.setup.run (s.created scratch)).on m with
  | mk result m₁ =>
    rw [hrun] at hbefore hmade
    cases result with
    | error e =>
      refine ⟨{ setup := before }, ?_, hsetup, .inl rfl⟩
      exact hbefore.trans (by simp [Parts.tests])
    | ok made =>
      obtain ⟨hfresh, hplan⟩ := hmade made rfl
      obtain ⟨between, hbetween, hprelude⟩ :=
        ((hfurnish m₁).prelude hfresh files directories m₁ .refl).1.started
      have hpreparing : ∀ c ∈ before ++ between, s.settings.Preparing c :=
        List.forall_mem_append.mpr ⟨hsetup, hprelude⟩
      simp only
      rw [Job.on_bind]
      cases hroots : (s.prelude made files directories).on m₁ with
      | mk answer m₂ =>
        rw [hroots] at hbetween
        have hm₂ : m₂.started = m.started ++ (before ++ between) := by
          rw [hbetween, hbefore, List.append_assoc]
        cases answer with
        | error e =>
          refine ⟨{ setup := before ++ between }, ?_, hpreparing, .inl rfl⟩
          exact hm₂.trans (by simp [Parts.tests])
        | ok roots =>
          obtain ⟨r, htests, htrace⟩ :=
            Phases.run_starts (p := s.phases made) hplan.timings files roots m₂
          refine ⟨{ r with setup := before ++ between }, ?_, hpreparing,
            .inr ⟨made, m₁, roots, m₂, hrun, hfresh, hroots, ?_⟩⟩
          · simp only
            rw [htests, hm₂, List.append_assoc]
            rfl
          · exact htrace.within _ r.conversion

/-- Reporting on the tests asks for nothing. -/
theorem testSorted_starts (s : Session) (scratch : Scratch) (m : Machine) (targets : List Path)
    (sorted : List Target) : ∃ r : Parts,
      ((s.testSorted scratch targets sorted).on m).2.started = m.started ++ (r.setup ++ r.tests) ∧
      s.Works scratch m (sorted.filterMap Target.file?) (sorted.filterMap Target.directory?) r := by
  rw [testSorted_eq]
  split
  · exact ⟨{}, (List.append_nil _).symm, nofun, .inl rfl⟩
  · obtain ⟨r, hstarted, hworks⟩ := s.execute_starts scratch m
      (sorted.filterMap Target.file?) (sorted.filterMap Target.directory?)
    refine ⟨r, ?_, hworks⟩
    have hnote : ∀ {m₁} text, (note text).Stays (Onward (fun _ => False) m₁) :=
      (Onward.lasting scratch.path).stays_note
    rw [← hstarted, Job.on_bind, Job.on_outcome]
    exact (Onward.upkeep.answer hnote _ _ .refl).1.idle

/-- No tool is asked for where a session does not get as far as its log. -/
theorem run_unbegun {m : Machine} (h : ¬∃ scratch m₁, s.Begins m scratch m₁) (targets : List Path) :
    ((s.run targets).on m).2.started = m.started := by
  apply Onward.idle
  unfold run
  rw [Job.on_bind]
  cases hscratch : s.openScratch.on m with
  | mk result m₀ =>
    have hm₀ : Onward (fun _ => False) m m₀ := Onward.openScratch.leaves .refl hscratch
    cases result with
    | error e => exact hm₀
    | ok scratch =>
      simp only
      rw [Job.on_bind, Job.on_outcome, runIn, Job.on_bind]
      cases hlog : s.openLog.on m₀ with
      | mk opened m₁ =>
        have hm₁ : Onward (fun _ => False) m m₁ :=
          (Onward.upkeep (B := s.Closes)).openLog.leaves hm₀ hlog
        cases opened with
        | error e =>
          exact ((Onward.closeScratch scratch).outcome.after
            (fun _ => Job.Keeps.throw e fun _ => True) _ hm₁).1
        | ok u => exact absurd ⟨scratch, m₁, m₀, hscratch, hlog⟩ h

theorem Begins.started {m m₁ : Machine} (h : s.Begins m scratch m₁) : m₁.started = m.started := by
  obtain ⟨m₀, hscratch, hlog⟩ := h
  have hm₀ : Onward (fun _ => False) m m₀ := Onward.openScratch.leaves .refl hscratch
  exact ((Onward.upkeep (B := s.Closes)).openLog.leaves hm₀ hlog).idle

/-- All that a session starts from its beginning to its end. -/
structure Trace (s : Session) (targets : List Path) (m : Machine) (r : Parts) : Prop where
  started : ((s.run targets).on m).2.started = m.started ++ r.all
  works : r.setup ++ r.tests = [] ∨ ∃ scratch m₁ sorted m₂, s.Begins m scratch m₁ ∧
    (s.sortTargets targets).on m₁ = (.ok sorted, m₂) ∧
    s.Works scratch m₂ (sorted.filterMap Target.file?) (sorted.filterMap Target.directory?) r
  /-- What it starts besides is the converter of its log. -/
  conversion : ∀ c ∈ r.conversion, s.settings.junitXml = true ∧ c = s.junitCommand

theorem run_trace (s : Session) (targets : List Path) (m : Machine) :
    ∃ r, s.Trace targets m r := by
  by_cases hbegun : ∃ scratch m₁, s.Begins m scratch m₁
  · obtain ⟨scratch, m₁, hbegins⟩ := hbegun
    have hconcluding : ∀ {m'}, Concluding s scratch
        (Onward (fun c => s.settings.junitXml = true ∧ c = s.junitCommand) m') :=
      Onward.concluding (fun hjunit => ⟨hjunit, rfl⟩) scratch
    have hafter : Onward (fun c => s.settings.junitXml = true ∧ c = s.junitCommand)
        ((s.test scratch targets).on m₁).2 ((s.run targets).on m).2 := hconcluding.run hbegins .refl
    obtain ⟨conversion, hconversion, hall⟩ := hafter.started
    rw [test_eq, Job.on_bind] at hconversion
    cases hsort : (s.sortTargets targets).on m₁ with
    | mk result m₂ =>
      have hm₂ : Onward (fun _ => False) m₁ m₂ :=
        ((Onward.lasting scratch.path).sortTargets targets).leaves .refl hsort
      rw [hsort] at hconversion
      cases result with
      | error e =>
        refine ⟨{ conversion }, ?_, .inl rfl, hall⟩
        rw [hconversion, ← hbegins.started, ← hm₂.idle]
        rfl
      | ok sorted =>
        obtain ⟨r, hstarted, hworks⟩ := s.testSorted_starts scratch m₂ targets sorted
        refine ⟨{ r with conversion }, ?_, .inr ⟨scratch, m₁, sorted, m₂, hbegins, hsort, ?_⟩, hall⟩
        · rw [hconversion, hstarted, hm₂.idle, hbegins.started, List.append_assoc, List.append_assoc]
          rfl
        · refine ⟨hworks.setup, hworks.tests.imp id ?_⟩
          rintro ⟨made, m₃, roots, m₄, hmade, hfresh, hroots, htrace⟩
          exact ⟨made, m₃, roots, m₄, hmade, hfresh, hroots, htrace.within _ conversion⟩
  · refine ⟨{}, ?_, .inl rfl, nofun⟩
    rw [run_unbegun hbegun]
    exact (List.append_nil _).symm

end Session

end Regression
