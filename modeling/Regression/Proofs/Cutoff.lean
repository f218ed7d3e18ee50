import Regression.Proofs.Census

namespace Regression

variable {c : Context} {o : WalkOptions} {mode : RunMode} {front handle : Handler} {root d : Path}
  {report : WalkReport} {n n' nk : Machine} {es : List Walk.Entry} {v : Option Verdict}

/-- A handler that does at each of its calls what the other does is in step with it. -/
theorem Again.of_same {deeds : List Deed} (h : Deeds c mode handle deeds n nk)
    (hsame : ∀ before d after m m', deeds = before ++ .handed d :: after →
      Deeds c mode handle before n m → (handle d mode).on m = (.ok (), m') →
      (front d mode).on m = (.ok (), m')) :
    Again c mode front handle Eq deeds n n none nk := by
  induction h with
  | nil m => exact .nil rfl
  | @cons deed deeds m m₁ nk done rest ih =>
    have hdone : deed.Done c mode front m m₁ := by
      cases deed with
      | handed d => exact hsame [] d deeds m m₁ rfl (.nil m) done
      | _ => exact done
    refine .cons rfl hdone done (ih fun before d after m₂ m₃ hdeeds hbefore hcall => ?_)
    exact hsame (deed :: before) d after m₂ m₃ (by rw [hdeeds, List.cons_append])
      (.cons done hbefore) hcall

/-- Deeds that are done again end in step. -/
theorem Again.ends {deeds : List Deed} {S : Machine → Machine → Prop} {m mk : Machine}
    (h : Again c mode front handle S deeds m n none mk) (hn : Deeds c mode handle deeds n nk) :
    S mk nk := by
  rw [← List.append_nil deeds] at h
  rcases h.split hn with ⟨e, he, -⟩ | ⟨m₁, -, hend⟩
  · cases he
  · cases hend with
    | nil step => exact step

/-- Messages are only added. -/
theorem Deeds.notes {deeds : List Deed}
    (hhandle : ∀ d m, m.notes <:+ ((handle d mode).on m).2.notes)
    (h : Deeds c mode handle deeds n n') : n.notes <:+ n'.notes := by
  have hstarting : Starting (fun _ => True) fun m => n.notes <:+ m.notes := by
    refine ⟨fun _ _ hm => hm, fun _ _ hm => hm, fun m command _ hm => ?_⟩
    rw [Command.start_on]
    cases m.tools m.commands command m.directory m.files <;> exact hm
  refine h.lasting (I := fun m => n.notes <:+ m.notes) (fun deed m m' hm hdone => ?_)
    (List.suffix_refl _)
  cases deed with
  | noted text =>
    obtain ⟨_, _, _, rfl⟩ := note_ok hdone
    exact hm.trans (List.suffix_cons _ _)
  | said line =>
    cases hdone
    exact hm
  | judged d v =>
    have hstays : n.notes <:+ ((Skip.evaluate c d).on m).2.notes :=
      hstarting.evaluate (fun _ => trivial) m hm
    rwa [show (Skip.evaluate c d).on m = (v, m') from hdone] at hstays
  | handed d =>
    have hnotes := hhandle d m
    rw [show (handle d mode).on m = (.ok (), m') from hdone] at hnotes
    exact hm.trans hnotes

namespace Walk

/-- What a walk with the entries `es` that succeeds, from `n` to `n'`, says of one that fails at the
deed that comes after `first`, at `nk`. -/
structure StopsAt (c : Context) (o : WalkOptions) (mode : RunMode) (handle : Handler) (root : Path)
    (es : List Entry) (n n' : Machine) (first : List Deed) (deed : Deed) (rest : List Deed)
    (nk : Machine) : Prop where
  whole : course root es = first ++ deed :: rest
  before : Deeds c mode handle first n nk
  after : Deeds c mode handle (deed :: rest) nk n'
  /-- Where the handler takes no message back, those up to there stand at the beginning of all. -/
  messages : (∀ d m, m.notes <:+ ((handle d mode).on m).2.notes) →
    n.notes <:+ nk.notes ∧ nk.notes <:+ n'.notes
  /-- From a machine in step, with a handler of its own. -/
  stops : ∀ front S m mk e m', LookAlike S → Again c mode front handle S first m n none mk →
    deed.Fails mode front mk e m' →
    S mk nk ∧ (walk c o mode front root).on m = (.error e, m')
  /-- From the same machine, with a handler that does the same at each call before. -/
  same : ∀ front e m', (∀ before d after m₁ m₂, first = before ++ .handed d :: after →
      Deeds c mode handle before n m₁ → (handle d mode).on m₁ = (.ok (), m₂) →
      (front d mode).on m₁ = (.ok (), m₂)) →
    deed.Fails mode front nk e m' → (walk c o mode front root).on n = (.error e, m')

/-- What is done before a directory is handed over that comes after the entries `before`. -/
def leading (root : Path) (before : List Entry) (d : Path) (v : Option Verdict) : List Deed :=
  course root before ++ (Entry.worked d v true).deeds.dropLast

theorem Walked.stopsAt {I : Machine → Prop} (h : Walked c o mode handle I root n report n' es)
    {first rest : List Deed} {deed : Deed} (hwhole : course root es = first ++ deed :: rest) :
    ∃ nk, StopsAt c o mode handle root es n n' first deed rest nk := by
  have hdone := h.done
  rw [hwhole] at hdone
  obtain ⟨nk, hbefore, hafter⟩ := hdone.split
  have hstops : ∀ front S m mk e m', LookAlike S → Again c mode front handle S first m n none mk →
      deed.Fails mode front mk e m' →
      S mk nk ∧ (walk c o mode front root).on m = (.error e, m') := by
    intro front S m mk e m' hS hagain hfails
    have hstep := hagain.ends hbefore
    refine ⟨hstep, h.again front S m (some e) m' hS ?_⟩
    rw [hwhole]
    exact hagain.cut hbefore hstep hfails
  refine ⟨nk, hwhole, hbefore, hafter, fun hadds => ⟨hbefore.notes hadds, hafter.notes hadds⟩,
    hstops, fun front e m' hsame hfails => ?_⟩
  refine (hstops front Eq n nk e m' ?_ (.of_same hbefore hsame) hfails).2
  rintro m _ rfl
  exact .refl m

theorem Entry.of_handled {e : Entry} (h : e.lot = .handled) :
    ∃ v, e = .worked e.directory v true ∧ (heeded v).directive = .test := by
  cases e with
  | refused d => cases h
  | worked d v handed =>
    simp only [lot, lotOf] at h
    cases hv : (heeded v).directive with
    | test =>
      cases handed with
      | true => exact ⟨v, rfl, hv⟩
      | false => simp [hv] at h
    | _ => simp [hv] at h

/-- Handing over is the last that is done about a directory. -/
theorem deeds_of_test (d : Path) (h : (Entry.heeded v).directive = .test) :
    (Entry.worked d v true).deeds = (Entry.worked d v true).deeds.dropLast ++ [.handed d] := by
  have hparts : (Entry.worked d v true).deeds = (.noted "" :: .noted (workingOn d) ::
      ((v.map (Deed.judged d)).toList ++ ((Entry.heeded v).info.map .said ++
        (Entry.heeded v).warnings.map .noted))) ++ [.handed d] := by
    simp [Entry.deeds, Verdict.deeds, Verdict.outcome, h]
  rw [hparts, List.dropLast_concat]

theorem no_call_before (d : Path) (h : (Entry.heeded v).directive = .test) :
    (Entry.worked d v true).deeds.dropLast.filterMap Deed.call? = [] := by
  have hcalls := Entry.calls (.worked d v true)
  have hlast : [Deed.handed d].filterMap Deed.call? = [d] := rfl
  have hlot : (Entry.worked d v true).lot = .handled := by simp [Entry.lot, lotOf, h]
  rw [deeds_of_test d h, List.filterMap_append, if_pos hlot, hlast] at hcalls
  exact List.append_left_eq_self.mp hcalls

/-- The entry of the directory that is handed over after `k` others. -/
theorem exists_handled {k : Nat} (h : (withLot .handled es)[k]? = some d) :
    ∃ before v after, es = before ++ .worked d v true :: after ∧
      (Entry.heeded v).directive = .test ∧
      withLot .handled before = (withLot .handled es).take k := by
  induction es generalizing k with
  | nil => cases h
  | cons e es ih =>
    by_cases hlot : e.lot = .handled
    · have hcons : withLot .handled (e :: es) = e.directory :: withLot .handled es := by
        simp [withLot, hlot]
      rw [hcons] at h ⊢
      cases k with
      | zero =>
        obtain rfl : e.directory = d := by simpa using h
        obtain ⟨v, he, htest⟩ := Entry.of_handled hlot
        exact ⟨[], v, es, by rw [List.nil_append, ← he], htest, rfl⟩
      | succ k =>
        obtain ⟨before, v, after, rfl, htest, htake⟩ := ih (by simpa using h)
        refine ⟨e :: before, v, after, rfl, htest, ?_⟩
        rw [List.take_succ_cons, ← htake]
        simp [withLot, hlot]
    · have hcons : ∀ es, withLot .handled (e :: es) = withLot .handled es := by
        intro es
        simp [withLot, hlot]
      rw [hcons] at h ⊢
      obtain ⟨before, v, after, rfl, htest, htake⟩ := ih h
      exact ⟨e :: before, v, after, rfl, htest, by rw [hcons, htake]⟩

end Walk

/-- A walk that fails at one call of its handler, or at one line for the log, ends there. -/
theorem walk_stops (hrun : (walk c o mode handle root).on n = (.ok report, n')) :
    ∃ es, Deeds c mode handle (Walk.course root es) n n' ∧
      (∀ k d, ((Walk.course root es).filterMap Deed.call?)[k]? = some d → ∃ before v after nk,
        es = before ++ .worked d v true :: after ∧
        (Walk.leading root before d v).filterMap Deed.call? =
          ((Walk.course root es).filterMap Deed.call?).take k ∧
        Walk.StopsAt c o mode handle root es n n' (Walk.leading root before d v) (.handed d)
          (after.flatMap Walk.Entry.deeds) nk) ∧
      ∀ first text rest, Walk.course root es = first ++ .noted text :: rest →
        ∃ nk, Walk.StopsAt c o mode handle root es n n' first (.noted text) rest nk := by
  have hI : Lasts c mode handle fun _ => True := fun _ _ _ _ _ => trivial
  obtain ⟨es, hwalked⟩ := walk_walked hI trivial hrun
  refine ⟨es, hwalked.done, fun k d hk => ?_, fun first text rest => hwalked.stopsAt⟩
  rw [Walk.course_calls] at hk ⊢
  obtain ⟨before, v, after, rfl, htest, htake⟩ := Walk.exists_handled hk
  have hlast := Walk.deeds_of_test d htest
  have hwhole : Walk.course root (before ++ .worked d v true :: after) =
      Walk.leading root before d v ++ .handed d :: after.flatMap Walk.Entry.deeds := by
    rw [Walk.leading, Walk.course, Walk.course, List.flatMap_append, List.flatMap_cons, hlast]
    simp
  obtain ⟨nk, hstops⟩ := hwalked.stopsAt hwhole
  refine ⟨before, v, after, nk, rfl, ?_, hstops⟩
  rw [Walk.leading, List.filterMap_append, Walk.course_calls, Walk.no_call_before d htest,
    List.append_nil, htake]

/-- A line that a device has no room for cannot be written. -/
theorem note_noSpace {m : Machine} {l : Logger} {place : Location} {room : Nat} {text : String}
    (hlog : m.log = .file l) (hhandle : l.handle = some (.device place))
    (hplace : m.files.node? place = some (.device (some room)))
    (hroom : room < (Text.encode (Text.trimEnd text ++ "\n")).length) :
    (note text).on m = (.error (.logWrite l.path .noSpace), m.told l.echo (Text.trimEnd text)) := by
  have hwrite : m.files.write (.device place) (Text.encode (Text.trimEnd text ++ "\n")) =
      .error .noSpace := by
    simp only [FileTree.write, hplace]
    exact if_neg (Nat.not_le.mpr hroom)
  rw [note_on_file hlog, hhandle]
  simp only [hwrite]

namespace Brink

/-- A tree with a device that is full. -/
def files : FileTree :=
  { entries :=
      [([], .directory .newDirectory), (["full"], .device (some 0)),
        (["t"], .directory .newDirectory)] }

def machine : Machine := { Grove.machine with files }

def logger : Logger := { path := ⟨"/full"⟩, handle := some (.device ["full"]), echo := false }

/-- The same machine, with its log on that device. -/
def brimming : Machine := { machine with log := .file logger }

theorem note_fails (text : String) :
    (note text).on brimming = (.error (.logWrite ⟨"/full"⟩ .noSpace),
      brimming.told false (Text.trimEnd text)) := by
  have hroom : 0 < (Text.encode (Text.trimEnd text ++ "\n")).length := by
    simp [Text.encode, String.utf8EncodeChar]
  have hplace : brimming.files.node? ["full"] = some (.device (some 0)) := rfl
  exact note_noSpace (l := logger) rfl rfl hplace hroom

end Brink

namespace Grove

/-- The record takes down the calls. -/
theorem marks_deeds {deeds : List Deed} {m m' : Machine}
    (h : Deeds context .execute mark deeds m m') (hm : Steady machine m) :
    marks m' = marks m ++ deeds.filterMap Deed.call? := by
  induction h with
  | nil m => exact (List.append_nil _).symm
  | @cons deed deeds m m₁ m' done _ ih =>
    have hsteady := lasts_steady evaluate_stays mark_stays deed m m₁ hm done
    rw [ih hsteady]
    cases deed with
    | noted text =>
      obtain ⟨_, _, _, rfl⟩ := note_ok done
      rfl
    | said line =>
      cases done
      rfl
    | judged d v =>
      obtain ⟨new, -, hmarks, -, rfl⟩ := directive_gives d m hm
      rw [show (Skip.evaluate context d).on m = (v, m₁) from done, List.append_nil] at hmarks
      rw [hmarks]
      rfl
    | handed d =>
      cases done
      simp [marks, Deed.call?]

/-- The same handler, but for the second directory. -/
def halting : Handler := fun d mode =>
  if d = ⟨"/t/s"⟩ then throw (.system .noSpace) else mark d mode

theorem walk_stops_grove :
    (∃ m', (walk context {} .execute halting ⟨"/t"⟩).on machine = (.error (.system .noSpace), m') ∧
      marks m' = [⟨"/t"⟩]) ∧
    ∃ m', (walk context Sealed.options .execute Sealed.idle ⟨"/t"⟩).on Brink.brimming =
        (.error (.logWrite ⟨"/full"⟩ .noSpace), m') ∧
      m'.notes = [Text.trimEnd (Walk.workingFrom ⟨"/t"⟩)] := by
  constructor
  · obtain ⟨report, n', hrun, hmarks⟩ := walk_ok
    obtain ⟨es, hdone, hcalls, -⟩ := walk_stops hrun
    have hall : (Walk.course ⟨"/t"⟩ es).filterMap Deed.call? = [⟨"/t"⟩, ⟨"/t/s"⟩] := by
      rw [← hmarks, marks_deeds hdone (Steady.refl trivial)]
      rfl
    obtain ⟨before, v, after, nk, -, htake, hstops⟩ := hcalls 1 ⟨"/t/s"⟩ (by rw [hall]; rfl)
    rw [hall] at htake
    refine ⟨nk, hstops.same halting (.system .noSpace) nk ?_ rfl, ?_⟩
    · -- The one call before is at the first directory.
      intro before d after m₁ m₂ hfirst _ hcall
      have hmem : d ∈ (Walk.leading ⟨"/t"⟩ _ ⟨"/t/s"⟩ v).filterMap Deed.call? :=
        List.mem_filterMap.mpr ⟨.handed d, by rw [hfirst]; simp, rfl⟩
      rw [htake] at hmem
      obtain rfl : d = ⟨"/t"⟩ := by simpa using hmem
      exact hcall
    · rw [marks_deeds hstops.before (Steady.refl trivial), htake]
      rfl
  · obtain ⟨report, n', hrun⟩ := Sealed.walk_ok Brink.files ⟨by decide, by decide⟩
    obtain ⟨es, -, -, hlines⟩ := walk_stops hrun
    obtain ⟨nk, hstops⟩ := hlines [] (Walk.workingFrom ⟨"/t"⟩) (es.flatMap Walk.Entry.deeds) rfl
    -- The first line fails; with its log in memory the same machine tells it.
    have hstep : Brink.brimming.Shows Brink.machine.files Brink.machine.directory := ⟨rfl, rfl⟩
    obtain ⟨-, hfails⟩ := hstops.stops Sealed.idle (fun m n => m.Shows n.files n.directory)
      Brink.brimming Brink.brimming _ _ (fun _ _ h => h.alike) (.nil hstep) (Brink.note_fails _)
    exact ⟨_, hfails, rfl⟩

end Grove

end Regression
