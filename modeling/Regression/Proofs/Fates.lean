import Regression.Proofs.Keeps
import Regression.Walk

namespace Regression

variable {α β σ ρ : Type} {s s' : σ} {m m' : Machine}

/-- What a threaded job that succeeds maintains between the value that it hands on and the machine. -/
def Threaded.Maintains (R : σ → Machine → Prop) (x : Threaded σ α) : Prop :=
  ∀ s m a s' m', R s m → (x.run s).on m = (.ok (a, s'), m') → R s' m'

namespace Threaded

theorem bind_ok {x : Threaded σ α} {f : α → Threaded σ β} {b : β}
    (h : ((x >>= f).run s).on m = (.ok (b, s'), m')) : ∃ a s₁ m₁,
      (x.run s).on m = (.ok (a, s₁), m₁) ∧ ((f a).run s₁).on m₁ = (.ok (b, s'), m') := by
  rw [StateT.run_bind] at h
  obtain ⟨⟨a, s₁⟩, m₁, hx, hf⟩ := Job.bind_ok h
  exact ⟨a, s₁, m₁, hx, hf⟩

/-- A lifted job leaves the value that is handed on alone. -/
theorem lift_bind_ok {j : Job α} {f : α → Threaded σ β} {b : β}
    (h : ((liftM j >>= f : Threaded σ β).run s).on m = (.ok (b, s'), m')) :
    ∃ a m₁, j.on m = (.ok a, m₁) ∧ ((f a).run s).on m₁ = (.ok (b, s'), m') := by
  obtain ⟨_, _, _, hlift, hf⟩ := bind_ok h
  obtain ⟨a, m₁, hj, hrest⟩ := Job.bind_ok (j := j) (f := fun a => pure (a, s)) hlift
  cases hrest
  exact ⟨_, _, hj, hf⟩

/-- So does a loop of such jobs. -/
theorem each_bind_ok {xs : List ρ} {g : ρ → Job PUnit} {f : PUnit → Threaded σ β} {b : β}
    (h : (((forIn xs PUnit.unit fun x _ => do
      liftM (g x)
      pure (.yield PUnit.unit) : Threaded σ PUnit) >>= f).run s).on m = (.ok (b, s'), m')) :
    ∃ m₁, Job.on (forIn xs PUnit.unit fun x _ => do
        g x
        pure (.yield PUnit.unit)) m = (.ok PUnit.unit, m₁) ∧
      ((f PUnit.unit).run s).on m₁ = (.ok (b, s'), m') := by
  induction xs generalizing m with
  | nil => exact ⟨m, rfl, h⟩
  | cons x xs ih =>
    rw [List.forIn_cons, bind_assoc, bind_assoc] at h
    obtain ⟨_, m₁, hx, hrest⟩ := lift_bind_ok h
    rw [pure_bind] at hrest
    obtain ⟨m₂, hxs, hf⟩ := ih hrest
    refine ⟨m₂, ?_, hf⟩
    rw [List.forIn_cons, bind_assoc, Job.on_bind_ok hx, pure_bind]
    exact hxs

namespace Maintains

variable {R : σ → Machine → Prop}

theorem given (a : α) : Threaded.Maintains R (pure a) := by
  rintro s m _ _ _ hr hok
  cases hok
  exact hr

theorem after {x : Threaded σ α} {f : α → Threaded σ β} (hx : x.Maintains R)
    (hf : ∀ a, (f a).Maintains R) : Threaded.Maintains R (x >>= f) := by
  intro s m b s' m' hr hok
  obtain ⟨a, s₁, m₁, hx₁, hok⟩ := bind_ok hok
  exact hf a s₁ m₁ b s' m' (hx s m a s₁ m₁ hr hx₁) hok

/-- What follows a look at the machine may go by what is maintained there. -/
theorem look {f : Machine → Threaded σ α} (h : ∀ s m, R s m → (f m).Maintains R) :
    Threaded.Maintains R (getThe Machine >>= f) := by
  intro s m a s' m' hr hok
  exact h s m hr s m a s' m' hr hok

theorem each {xs : List ρ} {f : ρ → Threaded σ α} (h : ∀ x ∈ xs, (f x).Maintains R) :
    Threaded.Maintains R
      (forIn xs PUnit.unit fun x _ => f x >>= fun _ => pure (.yield PUnit.unit)) := by
  induction xs with
  | nil => exact given _
  | cons x xs ih =>
    rw [List.forIn_cons, bind_assoc]
    refine after (h x List.mem_cons_self) fun _ => ?_
    rw [pure_bind]
    exact ih fun y hy => h y (List.mem_cons_of_mem x hy)

end Maintains

end Threaded

/-- What is told of a verdict before it is obeyed. -/
def Verdict.tell (v : Verdict) : Job Unit := do
  for line in v.info do
    say line
  for warning in v.warnings do
    note warning

namespace Walk

variable {c : Context} {o : WalkOptions} {mode : RunMode} {handle : Handler} {d : Path}
  {v : Verdict} {r r' : WalkReport} {deeper : Bool}

/-- The line by which a log tells that a directory is worked on. -/
def workingOn (d : Path) : String := "[Working on directory " ++ d.text ++ "]"

/-- The verdict on a directory: a walk that only cleans asks no marker. -/
def judge (c : Context) (o : WalkOptions) (d : Path) : Effect Verdict :=
  if o.cleanOnly then pure {} else Skip.evaluate c d

/-- What becomes of a directory with a verdict, from the report and the machine before to whether its
directories are visited and the report and the machine after. -/
inductive Fate (o : WalkOptions) (mode : RunMode) (handle : Handler) (d : Path) (v : Verdict)
    (r : WalkReport) (m : Machine) : Bool → WalkReport → Machine → Prop where
  | pruned {reason : SkipReason} {m' : Machine} (hv : v.directive = .prune reason)
    (hnote : Job.on (do
      if reason = .skipifSibling then
        note ("[Skipping directory and children based on .skipif environment settings in " ++
          ((v.marker.map (·.text)).getD "") ++ "]")) m = (.ok (), m')) :
    Fate o mode handle d v r m false { r with pruned := r.pruned + 1 } m'
  | skipped {reason : SkipReason} {m' : Machine} (hv : v.directive = .skipSelf reason)
    (hnote : Job.on (do
      if reason = .skipif then
        note "[Skipping directory based on SKIPIF environment settings]") m = (.ok (), m')) :
    Fate o mode handle d v r m true { r with skipped := r.skipped + 1 } m'
  | handled {m' : Machine} (hv : v.directive = .test)
    (htests : mode = .graph ∨ hasTests m o d mode = true)
    (hhandle : (handle d mode).on m = (.ok (), m')) :
    Fate o mode handle d v r m true { r with handled := r.handled + 1 } m'
  | empty {m' : Machine} (hv : v.directive = .test) (hmode : mode ≠ .graph)
    (hnone : hasTests m o d mode = false)
    (hnote : (note ("[No tests in directory " ++ d.text ++ "]")).on m = (.ok (), m')) :
    Fate o mode handle d v r m true { r with empty := r.empty + 1 } m'

/-- An optional message before a directory is counted. -/
theorem count_ok {p : Prop} [Decidable p] {text : String} {f : WalkReport → WalkReport}
    {answer : Bool}
    (h : ((if p then do
        liftM (note text)
        count f
        pure answer
      else do
        count f
        pure answer : Walking Bool).run r).on m = (.ok (deeper, r'), m')) :
    deeper = answer ∧ r' = f r ∧ Job.on (do if p then note text) m = (.ok (), m') := by
  by_cases hp : p
  · rw [if_pos hp] at h ⊢
    obtain ⟨_, m₁, hnote, hcount⟩ := Threaded.lift_bind_ok h
    cases hcount
    exact ⟨rfl, rfl, hnote⟩
  · rw [if_neg hp] at h ⊢
    cases h
    exact ⟨rfl, rfl, rfl⟩

theorem obey_ok (h : ((obey o mode handle d v).run r).on m = (.ok (deeper, r'), m')) :
    ∃ m₁, v.tell.on m = (.ok (), m₁) ∧ Fate o mode handle d v r m₁ deeper r' m' := by
  obtain ⟨m₁, hinfo, h₁⟩ := Threaded.each_bind_ok (g := fun line => say line) h
  obtain ⟨m₂, hwarnings, h₂⟩ := Threaded.each_bind_ok h₁
  refine ⟨m₂, ?_, ?_⟩
  · rw [Verdict.tell, Job.on_bind_ok hinfo, Job.on_bind_ok hwarnings]
    rfl
  · split at h₂
    · next reason hv =>
      obtain ⟨rfl, rfl, hnote⟩ := count_ok h₂
      exact .pruned hv hnote
    · next reason hv =>
      obtain ⟨rfl, rfl, hnote⟩ := count_ok h₂
      exact .skipped hv hnote
    · next hv =>
      obtain ⟨_, _, hget, h₃⟩ := Threaded.lift_bind_ok (j := get) h₂
      cases hget
      split at h₃
      · next htests =>
        obtain ⟨_, m₃, hhandle, hcount⟩ := Threaded.lift_bind_ok h₃
        cases hcount
        exact .handled hv (by simpa using htests) hhandle
      · next hnone =>
        obtain ⟨_, m₃, hnote, hcount⟩ := Threaded.lift_bind_ok h₃
        cases hcount
        rw [Bool.or_eq_true, not_or, Bool.not_eq_true, Bool.not_eq_true] at hnone
        exact .empty hv (by simpa using hnone.1) hnone.2 hnote

/-- A directory that is worked on is announced and counted, then judged, and meets its fate. -/
structure WorksOn (c : Context) (o : WalkOptions) (mode : RunMode) (handle : Handler) (d : Path)
    (v : Verdict) (m m₁ m₂ m₃ : Machine) : Prop where
  announced : Job.on (do noteBlank; note (workingOn d)) m = (.ok (), m₁)
  judged : (judge c o d).on m₁ = (v, m₂)
  told : v.tell.on m₂ = (.ok (), m₃)

theorem workOn_ok (h : ((workOn c o mode handle d).run r).on m = (.ok (deeper, r'), m')) :
    ∃ v m₁ m₂ m₃, WorksOn c o mode handle d v m m₁ m₂ m₃ ∧
      Fate o mode handle d v { r with visited := r.visited + 1 } m₃ deeper r' m' := by
  obtain ⟨_, m₁, hblank, h₁⟩ := Threaded.lift_bind_ok h
  obtain ⟨_, m₂, hworking, h₂⟩ := Threaded.lift_bind_ok h₁
  obtain ⟨_, _, _, hcount, h₃⟩ := Threaded.bind_ok h₂
  cases hcount
  have hannounced : Job.on (do noteBlank; note (workingOn d)) m = (.ok (), m₂) := by
    rw [Job.on_bind_ok hblank]
    exact hworking
  by_cases hclean : o.cleanOnly = true
  · rw [if_pos hclean, pure_bind] at h₃
    obtain ⟨m₃, htold, hfate⟩ := obey_ok h₃
    exact ⟨{}, m₂, m₂, m₃, ⟨hannounced, by rw [judge, if_pos hclean]; rfl, htold⟩, hfate⟩
  · rw [if_neg hclean] at h₃
    obtain ⟨v, m₃, hjudged, h₄⟩ := Threaded.lift_bind_ok h₃
    cases hjudged
    obtain ⟨m₄, htold, hfate⟩ := obey_ok h₄
    exact ⟨_, m₂, _, m₄, ⟨hannounced, by rw [judge, if_neg hclean]; rfl, htold⟩, hfate⟩

/-- What is maintained at every directory of `D`, which holds those below its own. -/
structure Upholds (c : Context) (o : WalkOptions) (mode : RunMode) (handle : Handler)
    (D : Path → Prop) (R : WalkReport → Machine → Prop) : Prop where
  below : ∀ r m d, R r m → D d → ∀ child ∈ below m d, D child
  reject : ∀ d, D d → Threaded.Maintains R (reject d)
  workOn : ∀ d, D d → Threaded.Maintains R (workOn c o mode handle d)

namespace Upholds

variable {D : Path → Prop} {R : WalkReport → Machine → Prop}

theorem visitAll (levels : Nat) {children : List Path}
    (h : ∀ child ∈ children, Threaded.Maintains R (Walk.visit c o mode handle levels child)) :
    Threaded.Maintains (α := Unit) R (do
      for child in children do
        Walk.visit c o mode handle levels child) :=
  (Threaded.Maintains.each h).after fun _ => Threaded.Maintains.given _

theorem visit (h : Upholds c o mode handle D R) (levels : Nat) (d : Path) (hd : D d) :
    Threaded.Maintains R (Walk.visit c o mode handle levels d) := by
  induction levels generalizing d with
  | zero => exact h.reject d hd
  | succ levels ih =>
    rw [Walk.visit]
    refine Threaded.Maintains.look fun r m hr => ?_
    split
    · exact h.reject d hd
    · split
      · refine (h.workOn d hd).after fun deeper => ?_
        split
        · exact visitAll levels fun child hchild => ih child (h.below r m d hr hd child hchild)
        · exact Threaded.Maintains.given _
      · exact Threaded.Maintains.given _

theorem begin (h : Upholds c o mode handle D R) {root : Path} (hroot : D root) :
    Threaded.Maintains R (Walk.begin c o mode handle root) := by
  unfold Walk.begin
  refine Threaded.Maintains.look fun r m hr => ?_
  split
  · exact h.reject root hroot
  · exact h.visit _ root hroot
  · split
    · exact h.reject root hroot
    · split
      · split
        · exact visitAll _ fun child hchild =>
            h.visit _ child (h.below r m root hr hroot child hchild)
        · exact h.reject root hroot
      · exact Threaded.Maintains.given _
  · exact Threaded.Maintains.given _

end Upholds

/-- Every directory that was worked on met one fate. -/
def Balanced (r : WalkReport) : Prop :=
  r.visited = r.pruned + r.skipped + r.handled + r.empty

end Walk

/-- A walk accounts for every directory that it worked on. -/
theorem walk_balanced {c : Context} {o : WalkOptions} {mode : RunMode} {handle : Handler}
    {root : Path} {report : WalkReport} {m m' : Machine}
    (h : (walk c o mode handle root).on m = (.ok report, m')) : Walk.Balanced report := by
  have hholds : Walk.Upholds c o mode handle (fun _ => True) fun r _ => Walk.Balanced r := by
    refine ⟨fun _ _ _ _ _ _ _ => trivial, ?_, ?_⟩
    · intro d _ r m u r' m' hr hok
      obtain ⟨_, _, -, hcount⟩ := Threaded.lift_bind_ok hok
      cases hcount
      exact hr
    · intro d _ r m deeper r' m' hr hok
      obtain ⟨v, m₁, m₂, m₃, -, hfate⟩ := Walk.workOn_ok hok
      unfold Walk.Balanced at hr ⊢
      cases hfate <;> simp only <;> omega
  obtain ⟨_, m₁, -, h⟩ := Job.bind_ok h
  obtain ⟨⟨_, _⟩, _, hbegin, h⟩ := Job.bind_ok h
  cases h
  exact hholds.begin trivial {} m₁ () _ _ rfl hbegin

end Regression
