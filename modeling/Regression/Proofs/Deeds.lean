import Regression.Proofs.Fates
import Regression.Proofs.View

namespace Regression

variable {α β ρ : Type}

/-- One thing that a walk does, other than look. -/
inductive Deed where
  | noted (text : String)
  | said (line : String)
  | judged (directory : Path) (verdict : Verdict)
  | handed (directory : Path)
  deriving DecidableEq

namespace Deed

/-- A deed that succeeds, with the machines before and after. -/
def Done (c : Context) (mode : RunMode) (handle : Handler) : Deed → Machine → Machine → Prop
  | noted text, m, m' => (note text).on m = (.ok (), m')
  | said line, m, m' => (say line).on m = ((), m')
  | judged d v, m, m' => (Skip.evaluate c d).on m = (v, m')
  | handed d, m, m' => (handle d mode).on m = (.ok (), m')

/-- One that fails: the log cannot be written, or the handler gives up. -/
def Fails (mode : RunMode) (handle : Handler) : Deed → Machine → Error → Machine → Prop
  | noted text, m, e, m' => (note text).on m = (.error e, m')
  | handed d, m, e, m' => (handle d mode).on m = (.error e, m')
  | _, _, _, _ => False

variable {c : Context} {mode : RunMode} {handle : Handler} {deed : Deed} {m m₁ m₂ : Machine}

theorem Done.unique (h₁ : deed.Done c mode handle m m₁) (h₂ : deed.Done c mode handle m m₂) :
    m₁ = m₂ := by
  cases deed with
  | noted text => exact (Prod.mk.inj (h₁.symm.trans h₂)).2
  | said line => exact (Prod.mk.inj (h₁.symm.trans h₂)).2
  | judged d v => exact (Prod.mk.inj (h₁.symm.trans h₂)).2
  | handed d => exact (Prod.mk.inj (h₁.symm.trans h₂)).2

end Deed

/-- Deeds that succeed, one after the other. -/
inductive Deeds (c : Context) (mode : RunMode) (handle : Handler) :
    List Deed → Machine → Machine → Prop where
  | nil (m : Machine) : Deeds c mode handle [] m m
  | cons {deed : Deed} {deeds : List Deed} {m m₁ m' : Machine}
    (done : deed.Done c mode handle m m₁) (rest : Deeds c mode handle deeds m₁ m') :
    Deeds c mode handle (deed :: deeds) m m'

/-- The deeds of one walk done again by another, which has a handler of its own and starts from a
machine in step with the first one's: all of them, or those up to one that fails. `S` says which
machines are in step. -/
inductive Again (c : Context) (mode : RunMode) (front whole : Handler)
    (S : Machine → Machine → Prop) :
    List Deed → Machine → Machine → Option Error → Machine → Prop where
  | nil {m n : Machine} (step : S m n) : Again c mode front whole S [] m n none m
  | cons {deed : Deed} {deeds : List Deed} {m n m₁ n₁ m' : Machine} {failure : Option Error}
    (step : S m n) (done : deed.Done c mode front m m₁) (first : deed.Done c mode whole n n₁)
    (rest : Again c mode front whole S deeds m₁ n₁ failure m') :
    Again c mode front whole S (deed :: deeds) m n failure m'
  | fails {deed : Deed} {deeds : List Deed} {m n m' : Machine} {e : Error} (step : S m n)
    (fails : deed.Fails mode front m e m') : Again c mode front whole S (deed :: deeds) m n (some e) m'

section

variable {c : Context} {mode : RunMode} {front whole : Handler} {S : Machine → Machine → Prop}
  {before deeds after : List Deed} {deed : Deed} {m m₁ m' n n₁ n' : Machine}
  {failure : Option Error} {e : Error}

theorem Deeds.append (h₁ : Deeds c mode whole before n n₁) (h₂ : Deeds c mode whole after n₁ n') :
    Deeds c mode whole (before ++ after) n n' := by
  induction h₁ with
  | nil m => exact h₂
  | cons done _ ih => exact .cons done (ih h₂)

theorem Deeds.split (h : Deeds c mode whole (before ++ after) n n') :
    ∃ n₁, Deeds c mode whole before n n₁ ∧ Deeds c mode whole after n₁ n' := by
  induction before generalizing n with
  | nil => exact ⟨n, .nil n, h⟩
  | cons deed before ih =>
    cases h with
    | cons done rest =>
      obtain ⟨n₁, hbefore, hafter⟩ := ih rest
      exact ⟨n₁, .cons done hbefore, hafter⟩

/-- What each deed leaves, all of them leave. -/
theorem Deeds.lasting {I : Machine → Prop}
    (hI : ∀ deed n n', I n → Deed.Done c mode whole deed n n' → I n')
    (h : Deeds c mode whole deeds n n') (hn : I n) : I n' := by
  induction h with
  | nil m => exact hn
  | cons done _ ih => exact ih (hI _ _ _ hn done)

/-- Each of the deeds is done from a machine that the ones before have left. -/
theorem Deeds.of_mem {I : Machine → Prop}
    (hI : ∀ deed n n', I n → Deed.Done c mode whole deed n n' → I n')
    (h : Deeds c mode whole deeds n n') (hn : I n) (hmem : deed ∈ deeds) :
    ∃ m m', I m ∧ deed.Done c mode whole m m' := by
  induction h with
  | nil m => cases hmem
  | @cons first deeds m m₁ m' done _ ih =>
    rcases List.mem_cons.mp hmem with rfl | hmem
    · exact ⟨m, m₁, hn, done⟩
    · exact ih (hI _ _ _ hn done) hmem

theorem Again.inStep (h : Again c mode front whole S deeds m n failure m') : S m n := by
  cases h with
  | nil step => exact step
  | cons step => exact step
  | fails step => exact step

/-- Of deeds in two parts, the first part fails, or the second one is done from where it ends. -/
theorem Again.split (h : Again c mode front whole S (before ++ after) m n failure m')
    (hn : Deeds c mode whole before n n₁) :
    (∃ e, failure = some e ∧ Again c mode front whole S before m n (some e) m') ∨
      ∃ m₁, Again c mode front whole S before m n none m₁ ∧
        Again c mode front whole S after m₁ n₁ failure m' := by
  induction hn generalizing m with
  | nil n => exact .inr ⟨m, .nil h.inStep, h⟩
  | cons first _ ih =>
    cases h with
    | cons step done first' rest =>
      obtain rfl := first.unique first'
      rcases ih rest with ⟨e, rfl, hfail⟩ | ⟨m₁, hdone, hrest⟩
      · exact .inl ⟨e, rfl, .cons step done first' hfail⟩
      · exact .inr ⟨m₁, .cons step done first' hdone, hrest⟩
    | fails step fails => exact .inl ⟨_, rfl, .fails step fails⟩

/-- After deeds that are done again, one fails. -/
theorem Again.cut (h : Again c mode front whole S before m n none m₁)
    (hn : Deeds c mode whole before n n₁) (hstep : S m₁ n₁) (hfails : deed.Fails mode front m₁ e m') :
    Again c mode front whole S (before ++ deed :: after) m n (some e) m' := by
  induction hn generalizing m with
  | nil n =>
    cases h
    exact .fails hstep hfails
  | cons first _ ih =>
    cases h with
    | cons step done first' rest =>
      obtain rfl := first.unique first'
      exact .cons step done first (ih rest hstep)

end

/-- How a job ends whose deeds end so. -/
def resultOf : Option Error → α → Except Error α
  | none, a => .ok a
  | some e, _ => .error e

namespace WalkReport

instance : Add WalkReport where
  add r s :=
    { visited := r.visited + s.visited, pruned := r.pruned + s.pruned
      skipped := r.skipped + s.skipped, empty := r.empty + s.empty
      handled := r.handled + s.handled, inaccessible := r.inaccessible + s.inaccessible }

variable (r s t : WalkReport)

@[simp] theorem add_visited : (r + s).visited = r.visited + s.visited := rfl

@[simp] theorem add_pruned : (r + s).pruned = r.pruned + s.pruned := rfl

@[simp] theorem add_skipped : (r + s).skipped = r.skipped + s.skipped := rfl

@[simp] theorem add_empty : (r + s).empty = r.empty + s.empty := rfl

@[simp] theorem add_handled : (r + s).handled = r.handled + s.handled := rfl

@[simp] theorem add_inaccessible : (r + s).inaccessible = r.inaccessible + s.inaccessible := rfl

theorem add_assoc : r + s + t = r + (s + t) := by
  change WalkReport.mk .. = WalkReport.mk ..
  simp only [add_visited, add_pruned, add_skipped, add_empty, add_handled, add_inaccessible,
    Nat.add_assoc]

@[simp] theorem add_nothing : r + {} = r := rfl

@[simp] theorem nothing_add : {} + r = r := by
  change WalkReport.mk .. = r
  simp

end WalkReport

/-- Machines that answer alike all that a walk asks of them. -/
structure Machine.Alike (m n : Machine) : Prop where
  isDirectory : ∀ p, m.isDirectory p = n.isDirectory p
  isThere : ∀ p, m.isThere p = n.isThere p
  isExecutable : ∀ p, m.isExecutable p = n.isExecutable p
  list : ∀ p, (m.list p).map (List.map fun e => (e.1, e.2.isDirectory)) =
    (n.list p).map (List.map fun e => (e.1, e.2.isDirectory))
  root : ∀ p, (m.files.findItself m.directory p).map (fun found =>
      (found.2.isDirectory, found.2.isLink)) =
    (n.files.findItself n.directory p).map fun found => (found.2.isDirectory, found.2.isLink)

theorem Machine.Alike.refl (m : Machine) : m.Alike m :=
  ⟨fun _ => rfl, fun _ => rfl, fun _ => rfl, fun _ => rfl, fun _ => rfl⟩

/-- Machines whose trees differ in no more than what files contain are alike. -/
theorem Machine.Shows.alike {m n : Machine} (h : m.Shows n.files n.directory) : m.Alike n where
  isDirectory := h.isDirectory
  isThere := h.isThere
  isExecutable := h.isExecutable
  list p := by
    have hkinds : ∀ found : Except Fault (List (String × Node)),
        (found.map (List.map fun e => (e.1, e.2.outline))).map
            (List.map fun e => (e.1, e.2.isDirectory)) =
          found.map (List.map fun e => (e.1, e.2.isDirectory)) := by
      intro found
      cases found <;> simp [Except.map, Function.comp_def]
    rw [← hkinds (m.list p), ← hkinds (n.list p), h.list p]
    rfl
  root p := by
    have hlink : ∀ n : Node, n.outline.isLink = n.isLink := fun n => by cases n <;> rfl
    have hkinds : ∀ found : Except Fault (Location × Node),
        (found.map fun found => (found.1, found.2.outline)).map
            (fun found => (found.2.isDirectory, found.2.isLink)) =
          found.map fun found => (found.2.isDirectory, found.2.isLink) := by
      intro found
      cases found <;> simp [Except.map, hlink]
    rw [← hkinds (m.files.findItself m.directory p), ← hkinds (n.files.findItself n.directory p),
      h.findItself p]

/-- Machines in step look alike. -/
def LookAlike (S : Machine → Machine → Prop) : Prop := ∀ m n, S m n → m.Alike n

/-- Deeds that leave machines in `I`. -/
def Lasts (c : Context) (mode : RunMode) (whole : Handler) (I : Machine → Prop) : Prop :=
  ∀ deed n n', I n → Deed.Done c mode whole deed n n' → I n'

/-- The machines that deeds lead to from `n`, whichever they are. -/
def Reached (c : Context) (mode : RunMode) (whole : Handler) (n m : Machine) : Prop :=
  ∃ deeds, Deeds c mode whole deeds n m

theorem Reached.refl {c : Context} {mode : RunMode} {whole : Handler} (n : Machine) :
    Reached c mode whole n n := ⟨[], .nil n⟩

theorem lasts_reached (c : Context) (mode : RunMode) (whole : Handler) (n : Machine) :
    Lasts c mode whole (Reached c mode whole n) := by
  rintro deed m m' ⟨deeds, hdeeds⟩ hdone
  exact ⟨deeds ++ [deed], hdeeds.append (.cons hdone (.nil m'))⟩

theorem Reached.lasting {c : Context} {mode : RunMode} {whole : Handler} {I : Machine → Prop}
    {n m : Machine} (h : Reached c mode whole n m) (hI : Lasts c mode whole I) (hn : I n) : I m := by
  obtain ⟨deeds, hdeeds⟩ := h
  exact hdeeds.lasting hI hn

/-- Where the log takes every line, and conditions and the handler leave a machine steady, so do all
deeds. -/
theorem lasts_steady {c : Context} {mode : RunMode} {whole : Handler} {m : Machine}
    (hskip : ∀ d, (Skip.evaluate c d).Stays (Steady m))
    (hhandle : ∀ d, (whole d mode).Stays (Steady m)) : Lasts c mode whole (Steady m) := by
  intro deed n n' hn hdone
  cases deed with
  | noted text =>
    obtain ⟨files, log, console, hnote, hsteady⟩ := note_steady hn.log text
    rw [(Prod.mk.inj (hdone.symm.trans hnote)).2]
    exact hn.trans hsteady
  | said line =>
    cases hdone
    exact ⟨hn.files, hn.directory, hn.tools, hn.log⟩
  | judged d v =>
    have hstays := hskip d n hn
    rwa [show (Skip.evaluate c d).on n = (v, n') from hdone] at hstays
  | handed d => exact (hhandle d).leaves hn hdone

/-- A part of a walk, as a handler makes it. Where it succeeds with the handler `whole`, from a machine
in `I`, it has added to the report and done deeds as `post` says; and with any other handler, from
machines in step, it ends as the same deeds do. -/
def Traced (c : Context) (mode : RunMode) (whole : Handler) (I : Machine → Prop)
    (X : Handler → Walking α) (post : α → WalkReport → List Deed → Prop) : Prop :=
  ∀ r n a r' n', I n → ((X whole).run r).on n = (.ok (a, r'), n') → ∃ counted deeds,
    r' = r + counted ∧ post a counted deeds ∧ Deeds c mode whole deeds n n' ∧
      ∀ front S m failure m', LookAlike S → Again c mode front whole S deeds m n failure m' →
        ((X front).run r).on m = (resultOf failure (a, r'), m')

/-- What the parts of a loop add up to, one after the other. -/
inductive Strung (post : ρ → WalkReport → List Deed → Prop) :
    List ρ → WalkReport → List Deed → Prop where
  | nil : Strung post [] {} []
  | cons {x : ρ} {xs : List ρ} {counted counted' : WalkReport} {deeds deeds' : List Deed}
    (first : post x counted deeds) (rest : Strung post xs counted' deeds') :
    Strung post (x :: xs) (counted + counted') (deeds ++ deeds')

/-- Turns that count nothing and do one deed each. -/
theorem Strung.each {f : ρ → Deed} {xs : List ρ} {counted : WalkReport} {deeds : List Deed}
    (h : Strung (fun x counted deeds => counted = {} ∧ deeds = [f x]) xs counted deeds) :
    counted = {} ∧ deeds = xs.map f := by
  induction h with
  | nil => exact ⟨rfl, rfl⟩
  | cons first _ ih =>
    obtain ⟨rfl, rfl⟩ := first
    obtain ⟨rfl, rfl⟩ := ih
    exact ⟨rfl, rfl⟩

/-- A lifted job on a machine. -/
theorem Threaded.lift_on {σ : Type} (j : Job α) (s : σ) (m : Machine) :
    ((liftM j : Threaded σ α).run s).on m = match j.on m with
      | (.ok a, m') => (.ok (a, s), m')
      | (.error e, m') => (.error e, m') :=
  Job.on_bind j (fun a => pure (a, s)) m

theorem Threaded.bind_on {σ : Type} (x : Threaded σ α) (f : α → Threaded σ β) (s : σ) (m : Machine) :
    ((x >>= f).run s).on m = match (x.run s).on m with
      | (.ok (a, s'), m') => ((f a).run s').on m'
      | (.error e, m') => (.error e, m') := by
  rw [StateT.run_bind, Job.on_bind]
  split <;> simp_all

namespace Traced

variable {c : Context} {mode : RunMode} {whole : Handler} {I : Machine → Prop}

theorem pure {a : α} {post : α → WalkReport → List Deed → Prop} (h : post a {} []) :
    Traced c mode whole I (fun _ => pure a) post := by
  rintro r n _ _ _ - hrun
  cases hrun
  refine ⟨{}, [], rfl, h, .nil n, fun front S m failure m' _ hagain => ?_⟩
  cases hagain
  rfl

theorem mono {X : Handler → Walking α} {post weak : α → WalkReport → List Deed → Prop}
    (h : Traced c mode whole I X post) (hw : ∀ a counted deeds, post a counted deeds →
      weak a counted deeds) : Traced c mode whole I X weak := by
  intro r n a r' n' hn hrun
  obtain ⟨counted, deeds, hr, hpost, hrest⟩ := h r n a r' n' hn hrun
  exact ⟨counted, deeds, hr, hw _ _ _ hpost, hrest⟩

theorem bind {X : Handler → Walking α} {F : Handler → α → Walking β}
    {mid : α → WalkReport → List Deed → Prop} {post : β → WalkReport → List Deed → Prop}
    (hI : Lasts c mode whole I) (hX : Traced c mode whole I X mid)
    (hF : ∀ a counted deeds, mid a counted deeds → Traced c mode whole I (fun h => F h a)
      fun b counted' deeds' => post b (counted + counted') (deeds ++ deeds')) :
    Traced c mode whole I (fun h => X h >>= F h) post := by
  intro r n b r' n' hn hrun
  obtain ⟨a, r₁, n₁, hrun₁, hrun₂⟩ := Threaded.bind_ok hrun
  obtain ⟨counted, deeds, rfl, hmid, hdone, hleft⟩ := hX r n a r₁ n₁ hn hrun₁
  obtain ⟨counted', deeds', rfl, hpost, hdone', hleft'⟩ :=
    hF a counted deeds hmid _ n₁ b r' n' (hdone.lasting hI hn) hrun₂
  refine ⟨_, _, WalkReport.add_assoc r counted counted', hpost, hdone.append hdone', ?_⟩
  intro front S m failure m' hS hagain
  rw [Threaded.bind_on]
  rcases hagain.split hdone with ⟨e, rfl, hfail⟩ | ⟨m₁, hall, hrest⟩
  · rw [hleft front S m _ m' hS hfail]
    rfl
  · rw [hleft front S m none m₁ hS hall]
    exact hleft' front S m₁ failure m' hS hrest

/-- After a part that adds nothing and does nothing, the rest is all. -/
theorem after {X : Handler → Walking α} {F : Handler → α → Walking β}
    {post : β → WalkReport → List Deed → Prop} {counted : WalkReport} {deeds : List Deed}
    (hI : Lasts c mode whole I)
    (hX : Traced c mode whole I X fun _ counted' deeds' => counted' = counted ∧ deeds' = deeds)
    (hF : ∀ a, Traced c mode whole I (fun h => F h a)
      fun b counted' deeds' => post b (counted + counted') (deeds ++ deeds')) :
    Traced c mode whole I (fun h => X h >>= F h) post := by
  refine bind hI hX fun a _ _ hmid => ?_
  obtain ⟨rfl, rfl⟩ := hmid
  exact hF a

/-- Machines that look alike send a part of a walk the same way. -/
theorem look {F : Handler → Machine → Walking α} {post : α → WalkReport → List Deed → Prop}
    (hF : ∀ n, I n → Traced c mode whole I (fun h => F h n) post)
    (hsame : ∀ h m n, m.Alike n → F h m = F h n) :
    Traced c mode whole I (fun h => getThe Machine >>= F h) post := by
  intro r n a r' n' hn hrun
  obtain ⟨counted, deeds, hr, hpost, hdone, hleft⟩ := hF n hn r n a r' n' hn hrun
  refine ⟨counted, deeds, hr, hpost, hdone, fun front S m failure m' hS hagain => ?_⟩
  rw [← hleft front S m failure m' hS hagain]
  change ((F front m).run r).on m = ((F front n).run r).on m
  rw [hsame front m n (hS m n hagain.inStep)]

theorem count (f : WalkReport → WalkReport) (counted : WalkReport) (hf : ∀ r, f r = r + counted) :
    Traced c mode whole I (fun _ => Walk.count f) fun _ counted' deeds =>
      counted' = counted ∧ deeds = [] := by
  rintro r n _ _ _ - hrun
  cases hrun
  refine ⟨counted, [], hf r, ⟨rfl, rfl⟩, .nil n, fun front S m failure m' _ hagain => ?_⟩
  cases hagain
  rfl

/-- A job that is one deed. -/
theorem deed {J : Handler → Job α} (made : α → Deed)
    (hdone : ∀ h m a m', (J h).on m = (.ok a, m') ↔ (made a).Done c mode h m m')
    (hfails : ∀ h m a e m', (made a).Fails mode h m e m' → (J h).on m = (.error e, m')) :
    Traced c mode whole I (fun h => liftM (J h)) fun a counted deeds =>
      counted = {} ∧ deeds = [made a] := by
  intro r n a r' n' _ hrun
  rw [Threaded.lift_on] at hrun
  cases hjob : (J whole).on n with
  | mk result n₁ =>
    rw [hjob] at hrun
    cases result with
    | error e => cases hrun
    | ok a =>
      cases hrun
      have hmade := (hdone whole n a n').mp hjob
      refine ⟨{}, [made a], rfl, ⟨rfl, rfl⟩, .cons hmade (.nil n'), ?_⟩
      intro front S m failure m' _ hagain
      rw [Threaded.lift_on]
      cases hagain with
      | cons _ done _ rest =>
        cases rest
        rw [(hdone front m a m').mpr done]
        rfl
      | fails _ fails =>
        rw [hfails front m a _ m' fails]
        rfl

theorem note (text : String) :
    Traced c mode whole I (fun _ => liftM (Regression.note text)) fun _ counted deeds =>
      counted = {} ∧ deeds = [.noted text] :=
  deed (fun _ => .noted text) (fun _ _ _ _ => Iff.rfl) fun _ _ _ _ _ h => h

theorem say (line : String) :
    Traced c mode whole I (fun _ => liftM (liftM (Regression.say line) : Job Unit))
      fun _ counted deeds => counted = {} ∧ deeds = [.said line] := by
  refine deed (fun _ => .said line) (fun h m a m' => ?_) fun _ _ _ _ _ h => h.elim
  constructor <;> rintro ⟨⟩ <;> rfl

theorem judge (d : Path) :
    Traced c mode whole I (fun _ => liftM (liftM (Skip.evaluate c d) : Job Verdict))
      fun v counted deeds => counted = {} ∧ deeds = [.judged d v] := by
  refine deed (.judged d) (fun h m v m' => ?_) fun _ _ _ _ _ h => h.elim
  rw [Job.on_lift]
  constructor
  · intro hrun
    cases hrun
    rfl
  · intro hrun
    rw [show (Skip.evaluate c d).on m = (v, m') from hrun]

theorem hand (d : Path) :
    Traced c mode whole I (fun h => liftM (h d mode)) fun _ counted deeds =>
      counted = {} ∧ deeds = [.handed d] :=
  deed (fun _ => .handed d) (fun _ _ _ _ => Iff.rfl) fun _ _ _ _ _ h => h

theorem each {xs : List ρ} {F : ρ → Handler → Walking PUnit}
    {post : ρ → WalkReport → List Deed → Prop} (hI : Lasts c mode whole I)
    (h : ∀ x ∈ xs, Traced c mode whole I (F x) fun _ => post x) :
    Traced c mode whole I (fun handle => forIn xs PUnit.unit fun x _ =>
      F x handle >>= fun _ => Pure.pure (.yield PUnit.unit)) fun _ => Strung post xs := by
  induction xs with
  | nil => exact pure .nil
  | cons x xs ih =>
    simp only [List.forIn_cons, bind_assoc, pure_bind]
    refine bind hI (h x List.mem_cons_self) fun _ counted deeds hfirst => ?_
    refine (ih fun y hy => h y (List.mem_cons_of_mem x hy)).mono fun _ counted' deeds' hrest => ?_
    exact .cons hfirst hrest

/-- A loop in which each turn does one deed. -/
theorem eachOne {xs : List ρ} {F : ρ → Handler → Walking PUnit} {f : ρ → Deed}
    (hI : Lasts c mode whole I)
    (h : ∀ x ∈ xs, Traced c mode whole I (F x) fun _ counted deeds => counted = {} ∧ deeds = [f x]) :
    Traced c mode whole I (fun handle => forIn xs PUnit.unit fun x _ =>
      F x handle >>= fun _ => Pure.pure (.yield PUnit.unit)) fun _ counted deeds =>
        counted = {} ∧ deeds = xs.map f :=
  (each hI h).mono fun _ _ _ hstrung => hstrung.each

end Traced

end Regression
