import Regression.Program
import Regression.Proofs.Account
import Regression.Proofs.Onward

namespace Regression

namespace Session

variable {s : Session} {m m' m₁ m₂ : Machine} {scratch : Scratch} {targets : List Path}
  {sorted : List Target} {r : Outcome}

/-- A session that the program has set up names its log as all do. -/
theorem create_resolved {settings : Settings} {e : Environment} {cwd : Path}
    (h : (Session.create settings e cwd).on m = (.ok s, m')) : s.files.Resolved := by
  unfold create at h
  obtain ⟨layout, m₁, -, h⟩ := Job.bind_ok h
  obtain ⟨defaults, m₂, -, h⟩ := Job.bind_ok h
  obtain ⟨settings', m₃, -, h⟩ := Job.bind_ok h
  obtain ⟨queried, m₄, -, h⟩ := Job.bind_ok h
  cases h
  exact ⟨_, _, _, _, _, _, rfl⟩

/-- An error that was told before the report makes the exit code. -/
theorem failures_of_told {before : Machine} {summary : Option Summary} {new : List Change}
    {told : List String} {message : String} (h : Since s.files m₁ before)
    (hreport : s.report.on before = (.ok summary, m₂))
    (hfinish : (s.finish scratch (.tested summary)).on m₂ = (.ok r, m'))
    (hclean : s.settings.cleanOnly = false) (hnames : s.files.Resolved)
    (hnew : m'.changes = new ++ m₁.changes)
    (hspares : ∀ ch ∈ new, ch.Spares s.files.names m₁.directory)
    (htold : before.notes = told ++ m₁.notes) (hmem : message ∈ told)
    (herror : Text.startsWith message "[Error" = true) : r.exitCode = .failures := by
  obtain ⟨told', summed, htold', haccounts⟩ :=
    accounts_of_report h hreport hfinish hclean hnames hnew hspares
  have htold : told = told'.reverse := List.append_cancel_right (htold.symm.trans htold')
  rw [htold, List.mem_reverse] at hmem
  rw [haccounts.exitCode, if_pos (error_written (List.mem_append_left _ hmem) herror)]

/-- Tests that were reported make a session fail or succeed. -/
theorem finish_reported {summary : Option Summary}
    (h : (s.finish scratch (.tested summary)).on m = (.ok r, m')) :
    r.exitCode = .failures ∨ r.exitCode = .success := by
  obtain ⟨_, -, rfl⟩ := finish_tested_ok h
  by_cases hfailed : summary.any Summary.hasFailures = true
  · exact .inl (by rw [if_pos hfailed]; rfl)
  · exact .inr (by rw [if_neg hfailed]; rfl)

theorem finish_untested (h : (s.finish scratch .untested).on m = (.ok r, m')) :
    r.exitCode = .invalidTargets := by
  obtain ⟨_, -, rfl⟩ := finish_untested_ok h
  rfl

/-- What is told first, before all else: of each target in turn that is neither a directory nor a file
when a session begins on `m₁`, that it is neither. -/
def Reports (s : Session) (m₁ : Machine) (targets : List Path) (m' : Machine) : Prop :=
  ∃ rest, m'.notes.reverse = m₁.notes.reverse ++
    (targets.filter fun target =>
      !m₁.isDirectory (s.named target) && !m₁.isFile (s.named target)).map complaint ++ rest

/-- What a session that begins on `m₁` and answers with an exit code makes of its targets. -/
structure Heeds (s : Session) (m₁ : Machine) (targets : List Path) (code : ExitCode) (m' : Machine) :
    Prop where
  untested : code = .invalidTargets ↔
    targets ≠ [] ∧ ∀ target ∈ targets, Target.classify m₁ target s.cwd = none
  /-- Unless there is nothing to test, the files and the directories are worked on, each in the order
  in which the targets name them. -/
  worked : (targets = [] ∨ ∃ target ∈ targets, (Target.classify m₁ target s.cwd).isSome) →
    ∃ scratch before result after rest,
      (s.execute scratch
        ((targets.map s.named).filter fun p => !m₁.isDirectory p && m₁.isFile p)
        ((targets.map s.named).filter m₁.isDirectory)).on before = (result, after) ∧
      m'.notes = rest ++ after.notes
  reported : s.Reports m₁ targets m'
  /-- One target that names nothing makes a session fail that tests others, as long as nothing else
  touches the files that the log and the summary are kept in. -/
  mixed : s.settings.cleanOnly = false →
    (∃ target ∈ targets, Target.classify m₁ target s.cwd = none) →
    (∃ target ∈ targets, (Target.classify m₁ target s.cwd).isSome) →
    m₁.files.Apart m₁.directory s.files.names → m₁.tools.Sound →
    ∀ new, m'.changes = new ++ m₁.changes →
      (∀ ch ∈ new, ch.Spares s.files.names m₁.directory) → code = .failures

theorem complaint_error (target : Path) : Text.startsWith (complaint target) "[Error" = true := by
  simp [complaint, Text.startsWith, List.isPrefixOf]

/-- After the work on its targets a session only adds to its records. -/
theorem Stages.onward {summary : Option Summary}
    (hstages : s.Stages scratch targets sorted m₁ (.tested summary) m₂)
    (hfinish : (s.finish scratch (.tested summary)).on m₂ = (.ok r, m')) :
    ∃ result after, (s.work scratch sorted).on m₁ = (result, after) ∧
      Onward (fun _ => True) after m' := by
  have hlast : ∀ {m before}, Onward (fun _ => True) m before →
      s.report.on before = (.ok summary, m₂) → Onward (fun _ => True) m m' :=
    fun h hreport => ((Onward.concluding (fun _ => trivial) scratch).finish _).leaves
      ((Onward.upkeep.report fun _ h => h).leaves h hreport) hfinish
  cases hstages with
  | fatal _ hwork hnote hreport =>
    exact ⟨_, _, hwork, hlast (((Onward.lasting scratch.path).stays_note _).leaves .refl hnote) hreport⟩
  | passed _ hwork hreport => exact ⟨_, _, hwork, hlast .refl hreport⟩

/-- Once the targets are sorted they have been reported, however the session ends. -/
theorem run_reports (hbegins : s.Begins m scratch m₁)
    (hsort : (s.sortTargets targets).on m₁ = (.ok sorted, m₂)) :
    s.Reports m₁ targets ((s.run targets).on m).2 := by
  have honward : Onward (fun _ => True) m₂ ((s.run targets).on m).2 :=
    Onward.after_sorting (fun _ _ => trivial) (fun _ => trivial) hbegins hsort
  obtain ⟨rest, hrest⟩ := honward.notes
  refine ⟨rest.reverse, ?_⟩
  simp only [hrest, List.reverse_append, (sortTargets_ok hsort).told, classify_isNone]

theorem run_heeds (hbegins : s.Begins m scratch m₁) (hrun : (s.run targets).on m = (.ok r, m'))
    (hnames : s.files.Resolved) : s.Heeds m₁ targets r.exitCode m' := by
  obtain ⟨_, _, ending, m₃, hbegins', htest, hfinish⟩ := run_ok hrun
  obtain ⟨rfl, rfl⟩ := hbegins.unique hbegins'
  obtain ⟨sorted, m₂, hsort, hsorted⟩ := Job.bind_ok htest
  have hsorts := sortTargets_ok hsort
  have hstages := testSorted_stages hsorted
  have hreported : s.Reports m₁ targets m' := by
    have hreports := run_reports hbegins hsort
    rwa [hrun] at hreports
  -- Which code there is depends on whether anything is tested, and so does what is worked on.
  cases ending with
  | untested =>
    have hcode := finish_untested hfinish
    cases hstages with
    | untested hnone =>
      obtain ⟨hne, hall⟩ := hsorts.isEmpty_iff.mp hnone
      have hinvalid : ¬∃ target ∈ targets, (Target.classify m₁ target s.cwd).isSome := by
        rintro ⟨target, hmem, hsome⟩
        rw [hall target hmem] at hsome
        cases hsome
      exact ⟨⟨fun _ => ⟨hne, hall⟩, fun _ => hcode⟩,
        fun hvalid => absurd hvalid (not_or.mpr ⟨hne, hinvalid⟩), hreported,
        fun _ _ hvalid => absurd hvalid hinvalid⟩
  | failed e => exact absurd hfinish finish_failed
  | tested summary =>
    have hcode : r.exitCode ≠ .invalidTargets := by
      rcases finish_reported hfinish with h | h <;> rw [h] <;> decide
    have hsome : (sorted.isEmpty && !targets.isEmpty) = false := by cases hstages <;> assumption
    have huntested : r.exitCode = .invalidTargets ↔
        targets ≠ [] ∧ ∀ target ∈ targets, Target.classify m₁ target s.cwd = none := by
      refine ⟨fun h => absurd h hcode, fun h => ?_⟩
      rw [hsorts.isEmpty_iff.mpr h] at hsome
      cases hsome
    refine ⟨huntested, fun _ => ?_, hreported, ?_⟩
    · obtain ⟨result, after, hwork, hlast⟩ := hstages.onward hfinish
      obtain ⟨later, hlater⟩ := hlast.notes
      rw [work, hsorts.files, hsorts.directories] at hwork
      exact ⟨scratch, m₂, result, after, later, hwork, hlater⟩
    · rintro hclean ⟨target, hmem, hnone⟩ - hapart htools new hnew hspares
      have hlasting : Lasting scratch.path (fun _ => True) (Since s.files m₁) :=
        Since.lasting scratch.path _ htools
      have hsince : Since s.files m₁ m₂ :=
        (hlasting.sortTargets targets).leaves (.refl (hbegins.tended hapart)) hsort
      have hboth : Lasting scratch.path (fun _ => True) fun m =>
          Since s.files m₁ m ∧ Onward (fun _ => True) m₂ m :=
        hlasting.and (Onward.lasting scratch.path)
      have htested := hstages.tested hboth (fun _ _ => trivial) ⟨hsince, .refl⟩
      cases htested with
      | @reported before _ h hreport =>
        obtain ⟨told, htold⟩ := h.2.notes
        have hcomplaint : complaint target ∈
            ((targets.filter fun target => (Target.classify m₁ target s.cwd).isNone).map complaint) :=
          List.mem_map_of_mem (List.mem_filter.mpr ⟨hmem, by rw [hnone]; rfl⟩)
        have htold₂ := congrArg List.reverse hsorts.told
        rw [List.reverse_reverse, List.reverse_append, List.reverse_reverse] at htold₂
        rw [htold₂, ← List.append_assoc] at htold
        exact failures_of_told h.1 hreport hfinish hclean hnames hnew hspares htold
          (List.mem_append_right _ (List.mem_reverse.mpr hcomplaint)) (complaint_error target)

end Session

namespace Program

variable {settings : Settings} {targets : List Path} {e : Environment} {m m' : Machine}
  {code : ExitCode}

/-- The exit code that an error is told by. -/
def codeOf : Error → ExitCode
  | .environment _ => .environment
  | _ => .failures

theorem report_code (before : String) (error : Error) (m : Machine) :
    ((perform.report before error).on m).1 = codeOf error := by
  cases error <;> rfl

theorem codeOf_cases (error : Error) : codeOf error = .environment ∨ codeOf error = .failures := by
  cases error <;> simp [codeOf]

theorem perform_on (settings : Settings) (targets : List Path) (e : Environment) (m : Machine) :
    (perform settings targets e).on m =
      match (Session.create settings e m.directory.path).on m with
      | (.error error, m₀) => (perform.report setupFailure error).on m₀
      | (.ok s, m₀) =>
        match (s.run targets).on m₀ with
        | (.error error, m₁) => (perform.report "" error).on m₁
        | (.ok r, m₁) => (r.exitCode, m₁) := by
  have hrun : ∀ {α : Type} (j : Job α) (m : Machine), Effect.on j.run m = j.on m := fun _ _ => rfl
  unfold perform
  rw [Effect.on_bind, Effect.on_get]
  simp only [Effect.on_bind, hrun]
  cases (Session.create settings e m.directory.path).on m with
  | mk result m₀ =>
    cases result with
    | error error => rfl
    | ok s =>
      simp only [Effect.on_bind, hrun]
      cases (s.run targets).on m₀ with
      | mk answer m₁ => cases answer <;> rfl

variable {s : Session} {m₀ m₁ : Machine} {error : Error} {r : Outcome}

theorem perform_unset (h : (Session.create settings e m.directory.path).on m = (.error error, m₀)) :
    ((perform settings targets e).on m).1 = codeOf error := by
  rw [perform_on, h, report_code]

theorem perform_failed (hcreate : (Session.create settings e m.directory.path).on m = (.ok s, m₀))
    (hrun : (s.run targets).on m₀ = (.error error, m₁)) :
    ((perform settings targets e).on m).1 = codeOf error := by
  rw [perform_on, hcreate]
  simp only [hrun, report_code]

theorem perform_answered (hcreate : (Session.create settings e m.directory.path).on m = (.ok s, m₀))
    (hrun : (s.run targets).on m₀ = (.ok r, m₁)) :
    (perform settings targets e).on m = (r.exitCode, m₁) := by
  rw [perform_on, hcreate]
  simp only [hrun]

/-- The program comes to its exit code by an error or by the answer of its session. -/
theorem perform_code (settings : Settings) (targets : List Path) (e : Environment) (m : Machine) :
    (∃ error, ((perform settings targets e).on m).1 = codeOf error) ∨
      ∃ s m₀ r m₁, (Session.create settings e m.directory.path).on m = (.ok s, m₀) ∧
        (s.run targets).on m₀ = (.ok r, m₁) := by
  cases hcreate : (Session.create settings e m.directory.path).on m with
  | mk result m₀ =>
    cases result with
    | error error => exact .inl ⟨error, perform_unset hcreate⟩
    | ok s =>
      cases hrun : (s.run targets).on m₀ with
      | mk answer m₁ =>
        cases answer with
        | error error => exact .inl ⟨error, perform_failed hcreate hrun⟩
        | ok r => exact .inr ⟨s, m₀, r, m₁, rfl, hrun⟩

/-- What the exit code of the program says. -/
structure Exits (settings : Settings) (targets : List Path) (e : Environment) (m : Machine)
    (code : ExitCode) (m' : Machine) : Prop where
  /-- An error in setting up the session has a code of its own, whatever is said before it. -/
  unset : ∀ error m₀, (Session.create settings e m.directory.path).on m = (.error error, m₀) →
    code = codeOf error
  /-- So has an error that ends the session. -/
  failed : ∀ s m₀ error m₁, (Session.create settings e m.directory.path).on m = (.ok s, m₀) →
    (s.run targets).on m₀ = (.error error, m₁) → code = codeOf error
  /-- However a session ends that sorts its targets, it reports them. -/
  reported : ∀ s m₀ scratch m₁ sorted m₂,
    (Session.create settings e m.directory.path).on m = (.ok s, m₀) → s.Begins m₀ scratch m₁ →
    (s.sortTargets targets).on m₁ = (.ok sorted, m₂) →
    s.Reports m₁ targets ((s.run targets).on m₀).2
  untested : code = .invalidTargets ↔ ∃ s m₀ scratch m₁ r m₂,
    (Session.create settings e m.directory.path).on m = (.ok s, m₀) ∧ s.Begins m₀ scratch m₁ ∧
    (s.run targets).on m₀ = (.ok r, m₂) ∧ targets ≠ [] ∧
    ∀ target ∈ targets, Target.classify m₁ target s.cwd = none
  answered : ∀ s m₀ r m₂, (Session.create settings e m.directory.path).on m = (.ok s, m₀) →
    (s.run targets).on m₀ = (.ok r, m₂) → m' = m₂ ∧ code = r.exitCode ∧
    ∃ scratch m₁, s.Begins m₀ scratch m₁ ∧ s.Heeds m₁ targets code m'

/-- A missing prerequisite and every other error have an exit code of their own, as have targets that all
name nothing, and a target that names nothing among others makes the session fail. -/
theorem perform_exits (settings : Settings) (targets : List Path) (e : Environment) (m : Machine) :
    Exits settings targets e m ((perform settings targets e).on m).1
      ((perform settings targets e).on m).2 := by
  refine ⟨fun _ _ h => perform_unset h, fun _ _ _ _ hcreate hrun => perform_failed hcreate hrun,
    fun _ _ _ _ _ _ _ hbegins hsort => Session.run_reports hbegins hsort, ⟨fun hcode => ?_, ?_⟩,
    fun s m₀ r m₂ hcreate hrun => ?_⟩
  · rcases perform_code settings targets e m with ⟨error, h⟩ | ⟨s, m₀, r, m₂, hcreate, hrun⟩
    · rw [h] at hcode
      rcases codeOf_cases error with h' | h' <;> rw [h'] at hcode <;> cases hcode
    · obtain ⟨scratch, m₁, -, -, hbegins, -⟩ := Session.run_ok hrun
      have hheeds := Session.run_heeds hbegins hrun (Session.create_resolved hcreate)
      rw [perform_answered hcreate hrun] at hcode
      exact ⟨s, m₀, scratch, m₁, r, m₂, hcreate, hbegins, hrun, hheeds.untested.mp hcode⟩
  · rintro ⟨s, m₀, scratch, m₁, r, m₂, hcreate, hbegins, hrun, hnone⟩
    have hheeds := Session.run_heeds hbegins hrun (Session.create_resolved hcreate)
    rw [perform_answered hcreate hrun]
    exact hheeds.untested.mpr hnone
  · obtain ⟨scratch, m₁, -, -, hbegins, -⟩ := Session.run_ok hrun
    rw [perform_answered hcreate hrun]
    exact ⟨rfl, rfl, scratch, m₁, hbegins,
      Session.run_heeds hbegins hrun (Session.create_resolved hcreate)⟩

end Program

namespace Trial

def environment : Environment :=
  .ofList [("CHPL_HOME", "/"), ("CHPL_TEST_UTIL_DIR", "/"), ("CHPL_TEST_TMP_DIR", "/")]

def settings : Settings := { valgrind := true, logFile := some ⟨"/w"⟩ }

example : ((Program.perform settings [⟨"/a"⟩] (.ofList [])).on (machine [])).1 = .environment := by
  decide +kernel

/-- Where the log is a device, the report of a target that names nothing is lost with the rest of the
log, and the session succeeds. -/
theorem device_succeeds : ∃ s m₀ r m₁,
    (Session.create settings environment ⟨"/"⟩).on (machine [(["w"], .device none)]) = (.ok s, m₀) ∧
      (s.run [⟨"/a"⟩, ⟨"/missing"⟩]).on m₀ = (.ok r, m₁) ∧ settings.cleanOnly = false ∧
      (Target.classify (machine [(["w"], .device none)]) ⟨"/a"⟩ ⟨"/"⟩).isSome ∧
      Target.classify (machine [(["w"], .device none)]) ⟨"/missing"⟩ ⟨"/"⟩ = none ∧
      r.exitCode = .success := by
  have hcode : ((Program.perform settings [⟨"/a"⟩, ⟨"/missing"⟩] environment).on
      (machine [(["w"], .device none)])).1 = .success := by decide +kernel
  rcases Program.perform_code settings [⟨"/a"⟩, ⟨"/missing"⟩] environment
    (machine [(["w"], .device none)]) with ⟨error, h⟩ | ⟨s, m₀, r, m₁, hcreate, hrun⟩
  · rw [h] at hcode
    rcases Program.codeOf_cases error with h' | h' <;> rw [h'] at hcode <;> cases hcode
  · rw [Program.perform_answered hcreate hrun] at hcode
    exact ⟨s, m₀, r, m₁, hcreate, hrun, rfl, by decide +kernel, by decide +kernel, hcode⟩

end Trial

end Regression
