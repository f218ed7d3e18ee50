import Regression.Command.Run

namespace Regression

variable {α β ρ σ τ : Type}

/-- What a job answers on a machine, and the machine it leaves. -/
def Job.on (j : Job α) (m : Machine) : Except Error α × Machine := j.run.run m

def Effect.on (e : Effect α) (m : Machine) : α × Machine := e.run m

theorem Effect.on_bind (e : Effect α) (f : α → Effect β) (m : Machine) :
    (e >>= f).on m = (f (e.on m).1).on (e.on m).2 := rfl

theorem Effect.on_pure (a : α) (m : Machine) : Effect.on (pure a) m = (a, m) := rfl

theorem Effect.on_get (m : Machine) : Effect.on get m = (m, m) := rfl

namespace Job

@[simp] theorem on_pure (a : α) (m : Machine) : Job.on (pure a) m = (.ok a, m) := rfl

@[simp] theorem on_throw (e : Error) (m : Machine) : Job.on (throw e : Job α) m = (.error e, m) :=
  rfl

@[simp] theorem on_get (m : Machine) : Job.on get m = (.ok m, m) := rfl

@[simp] theorem on_set (m m' : Machine) : Job.on (set m') m = (.ok (), m') := rfl

@[simp] theorem on_modify (f : Machine → Machine) (m : Machine) :
    Job.on (modify f) m = (.ok (), f m) := rfl

@[simp] theorem on_lift (e : Effect α) (m : Machine) :
    Job.on (liftM e) m = (.ok (e.on m).1, (e.on m).2) := rfl

@[simp] theorem on_outcome (j : Job α) (m : Machine) :
    (outcome j).on m = (.ok (j.on m).1, (j.on m).2) := rfl

theorem on_bind (j : Job α) (f : α → Job β) (m : Machine) :
    (j >>= f).on m = match j.on m with
      | (.ok a, m') => (f a).on m'
      | (.error e, m') => (.error e, m') := by
  simp only [Job.on, ExceptT.run_bind, StateT.run_bind]
  cases h : j.run.run m with
  | mk result m' => cases result <;> rfl

theorem on_bind_ok {j : Job α} {m m' : Machine} {a : α} (h : j.on m = (.ok a, m'))
    (f : α → Job β) : (j >>= f).on m = (f a).on m' := by
  rw [on_bind, h]

/-- The parts of a job that succeeds have both succeeded. -/
theorem bind_ok {j : Job α} {f : α → Job β} {m m' : Machine} {b : β}
    (h : (j >>= f).on m = (.ok b, m')) : ∃ a m₁, j.on m = (.ok a, m₁) ∧ (f a).on m₁ = (.ok b, m') := by
  rw [on_bind] at h
  cases hj : j.on m with
  | mk result m₁ =>
    rw [hj] at h
    cases result with
    | error e => cases h
    | ok a => exact ⟨a, m₁, rfl, h⟩

theorem on_of_result {j : Job α} {m : Machine} {result : Except Error α}
    (h : (j.on m).1 = result) : j.on m = (result, (j.on m).2) :=
  Prod.ext h rfl

theorem on_of_isOk {j : Job α} {m : Machine} (h : (j.on m).1.isOk = true) :
    ∃ a m', j.on m = (.ok a, m') := by
  cases hj : j.on m with
  | mk result m' =>
    rw [hj] at h
    cases result with
    | error e => cases h
    | ok a => exact ⟨a, m', rfl⟩

/-- The turns of a loop that succeeds, one after the other. -/
inductive Turns (f : ρ → Job α) : List ρ → Machine → Machine → Prop where
  | done (m : Machine) : Turns f [] m m
  | turn {x : ρ} {xs : List ρ} {m m₁ m' : Machine} {a : α} (h : (f x).on m = (.ok a, m₁))
    (rest : Turns f xs m₁ m') : Turns f (x :: xs) m m'

theorem each_ok {xs : List ρ} {f : ρ → Job α} {m m' : Machine} {u : PUnit}
    (h : Job.on (forIn xs PUnit.unit fun x _ => do
      let _ ← f x
      pure (.yield PUnit.unit)) m = (.ok u, m')) : Turns f xs m m' := by
  induction xs generalizing m with
  | nil =>
    cases h
    exact .done _
  | cons x xs ih =>
    rw [List.forIn_cons, bind_assoc] at h
    obtain ⟨a, m₁, hx, hrest⟩ := bind_ok h
    rw [pure_bind] at hrest
    exact .turn hx (ih hrest)

theorem outcome_ok {j : Job α} {m m' : Machine} {result : Except Error α}
    (h : (outcome j).on m = (.ok result, m')) : j.on m = (result, m') := by
  rw [on_outcome] at h
  cases h
  rfl

end Job

@[simp] theorem attempt_on (j : Job α) (m : Machine) :
    (attempt j).on m = ((j.on m).1.toOption, (j.on m).2) := by
  simp only [attempt, Effect.on, Job.on, StateT.run_bind]
  cases h : j.run.run m with
  | mk result m' => cases result <;> rfl

/-- From every machine in `I` a job succeeds, stays in `I`, and adds to a record of the machine a
list that its answer vouches for. -/
def Job.Gives (I : Machine → Prop) (seen : Machine → List τ) (j : Job α)
    (post : α → List τ → Prop) : Prop :=
  ∀ m, I m → ∃ a m' new, j.on m = (.ok a, m') ∧ I m' ∧ seen m' = seen m ++ new ∧ post a new

/-- A job that adds nothing to the record. -/
def Job.Quiet (I : Machine → Prop) (seen : Machine → List τ) (j : Job α) : Prop :=
  j.Gives I seen fun _ new => new = []

namespace Job.Gives

variable {I : Machine → Prop} {seen : Machine → List τ}

theorem pure {a : α} {post : α → List τ → Prop} (h : post a []) :
    Job.Gives I seen (pure a) post := by
  intro m hm
  exact ⟨a, m, [], rfl, hm, by simp, h⟩

theorem get : Job.Gives I seen get fun m new => I m ∧ new = [] := by
  intro m hm
  exact ⟨m, m, [], rfl, hm, by simp, hm, rfl⟩

theorem bind {j : Job α} {f : α → Job β} {mid : α → List τ → Prop} {post : β → List τ → Prop}
    (hj : j.Gives I seen mid)
    (hf : ∀ a first, mid a first → (f a).Gives I seen fun b rest => post b (first ++ rest)) :
    (j >>= f).Gives I seen post := by
  intro m hm
  obtain ⟨a, m₁, first, hrun, hm₁, hseen, hmid⟩ := hj m hm
  obtain ⟨b, m₂, rest, hrun', hm₂, hseen', hpost⟩ := hf a first hmid m₁ hm₁
  refine ⟨b, m₂, first ++ rest, ?_, hm₂, ?_, hpost⟩
  · rw [Job.on_bind_ok hrun, hrun']
  · rw [hseen', hseen, List.append_assoc]

theorem mono {j : Job α} {post weak : α → List τ → Prop} (h : j.Gives I seen post)
    (hw : ∀ a new, post a new → weak a new) : j.Gives I seen weak := by
  intro m hm
  obtain ⟨a, m', new, hrun, hm', hseen, hpost⟩ := h m hm
  exact ⟨a, m', new, hrun, hm', hseen, hw a new hpost⟩

/-- After a quiet job the rest gives what the whole gives. -/
theorem after {j : Job α} {f : α → Job β} {post : β → List τ → Prop} (hj : j.Quiet I seen)
    (hf : ∀ a, (f a).Gives I seen post) : (j >>= f).Gives I seen post := by
  refine bind hj fun a first hfirst => ?_
  subst hfirst
  simpa using hf a

/-- A quiet job that is done only sometimes makes no difference. -/
theorem whether {p : Prop} [Decidable p] {j : Job α} {rest : Job β} {post : β → List τ → Prop}
    (hj : j.Quiet I seen) (hr : rest.Gives I seen post) :
    Job.Gives I seen (if p then j >>= fun _ => rest else rest) post := by
  split
  · exact after hj fun _ => hr
  · exact hr

theorem outcome {j : Job α} {post : α → List τ → Prop} (h : j.Gives I seen post) :
    Job.Gives I seen (Regression.outcome j) fun r new => ∃ a, r = .ok a ∧ post a new := by
  intro m hm
  obtain ⟨a, m', new, hrun, hm', hseen, hpost⟩ := h m hm
  exact ⟨.ok a, m', new, by rw [Job.on_outcome, hrun], hm', hseen, a, rfl, hpost⟩

/-- A loop adds what its turns add, one after the other. -/
theorem each {xs : List σ} {f : σ → Job α} {adds : σ → List τ}
    (h : ∀ x ∈ xs, (f x).Gives I seen fun _ new => new = adds x) :
    Job.Gives I seen
      (forIn xs PUnit.unit fun x _ => f x >>= fun _ => Pure.pure (.yield PUnit.unit))
      fun _ new => new = xs.flatMap adds := by
  induction xs with
  | nil => exact pure rfl
  | cons x xs ih =>
    rw [List.forIn_cons, bind_assoc]
    refine bind (h x List.mem_cons_self) ?_
    rintro _ first rfl
    simp only [pure_bind]
    refine mono (ih fun y hy => h y (List.mem_cons_of_mem _ hy)) ?_
    rintro _ rest rfl
    simp

theorem each_quiet {xs : List σ} {f : σ → Job PUnit} (h : ∀ x ∈ xs, (f x).Quiet I seen) :
    Job.Quiet I seen
      (forIn xs PUnit.unit fun x _ => f x >>= fun _ => Pure.pure (.yield PUnit.unit)) := by
  refine mono (each h) fun _ new hnew => ?_
  rw [hnew]
  exact List.flatMap_eq_nil_iff.mpr fun _ _ => rfl

/-- A job that stays in `I` and leads from `J` to `J` stays in both. -/
theorem along {J : Machine → Prop} {j : Job α} {post : α → List τ → Prop} (h : j.Gives I seen post)
    (hj : ∀ m a m', J m → j.on m = (.ok a, m') → J m') :
    j.Gives (fun m => I m ∧ J m) seen post := by
  rintro m ⟨hm, hJ⟩
  obtain ⟨a, m', new, hrun, hm', hrest⟩ := h m hm
  exact ⟨a, m', new, hrun, ⟨hm', hj m a m' hJ hrun⟩, hrest⟩

end Job.Gives

/-- An effect cannot fail, so that only its answer and its record count. -/
def Effect.Gives (I : Machine → Prop) (seen : Machine → List τ) (e : Effect α)
    (post : α → List τ → Prop) : Prop :=
  ∀ m, I m → ∃ new, I (e.on m).2 ∧ seen (e.on m).2 = seen m ++ new ∧ post (e.on m).1 new

namespace Effect.Gives

variable {I : Machine → Prop} {seen : Machine → List τ}

theorem pure {a : α} {post : α → List τ → Prop} (h : post a []) :
    Effect.Gives I seen (pure a) post := by
  intro m hm
  exact ⟨[], hm, (List.append_nil _).symm, h⟩

theorem get : Effect.Gives I seen get fun m new => I m ∧ new = [] := by
  intro m hm
  exact ⟨[], hm, (List.append_nil _).symm, hm, rfl⟩

theorem bind {e : Effect α} {f : α → Effect β} {mid : α → List τ → Prop}
    {post : β → List τ → Prop} (he : e.Gives I seen mid)
    (hf : ∀ a first, mid a first → (f a).Gives I seen fun b rest => post b (first ++ rest)) :
    Effect.Gives I seen (e >>= f) post := by
  intro m hm
  obtain ⟨first, hm₁, hseen, hmid⟩ := he m hm
  obtain ⟨rest, hm₂, hseen', hpost⟩ := hf _ first hmid _ hm₁
  refine ⟨first ++ rest, hm₂, ?_, hpost⟩
  exact hseen'.trans (by rw [hseen, List.append_assoc])

theorem mono {e : Effect α} {post weak : α → List τ → Prop} (h : e.Gives I seen post)
    (hw : ∀ a new, post a new → weak a new) : e.Gives I seen weak := by
  intro m hm
  obtain ⟨new, hm', hseen, hpost⟩ := h m hm
  exact ⟨new, hm', hseen, hw _ new hpost⟩

theorem lift {e : Effect α} {post : α → List τ → Prop} (h : e.Gives I seen post) :
    Job.Gives I seen (liftM e) post := by
  intro m hm
  obtain ⟨new, hm', hseen, hpost⟩ := h m hm
  exact ⟨_, _, new, rfl, hm', hseen, hpost⟩

theorem along {J : Machine → Prop} {e : Effect α} {post : α → List τ → Prop}
    (h : e.Gives I seen post) (he : ∀ m, J m → J (e.on m).2) :
    e.Gives (fun m => I m ∧ J m) seen post := by
  rintro m ⟨hm, hJ⟩
  obtain ⟨new, hm', hrest⟩ := h m hm
  exact ⟨new, ⟨hm', he m hJ⟩, hrest⟩

end Effect.Gives

/-- A job that hands a value of its own from step to step. -/
abbrev Threaded (σ : Type) := StateT σ Job

/-- Whatever value a threaded job starts from, it gives what is said of its answer. -/
def Threaded.Gives (I : Machine → Prop) (seen : Machine → List τ) (x : Threaded σ α)
    (post : α → List τ → Prop) : Prop :=
  ∀ s, (x.run s).Gives I seen fun p new => post p.1 new

namespace Threaded.Gives

variable {I : Machine → Prop} {seen : Machine → List τ}

theorem pure {a : α} {post : α → List τ → Prop} (h : post a []) :
    Threaded.Gives (σ := σ) I seen (pure a) post :=
  fun _ => Job.Gives.pure h

theorem bind {x : Threaded σ α} {f : α → Threaded σ β} {mid : α → List τ → Prop}
    {post : β → List τ → Prop} (hx : Threaded.Gives I seen x mid)
    (hf : ∀ a first, mid a first →
      Threaded.Gives I seen (f a) fun b rest => post b (first ++ rest)) :
    Threaded.Gives I seen (x >>= f) post := by
  intro s
  rw [StateT.run_bind]
  exact Job.Gives.bind (hx s) fun p first hmid => hf p.1 first hmid p.2

theorem mono {x : Threaded σ α} {post weak : α → List τ → Prop} (h : Threaded.Gives I seen x post)
    (hw : ∀ a new, post a new → weak a new) : Threaded.Gives I seen x weak :=
  fun s => (h s).mono fun p new hp => hw p.1 new hp

theorem lift {j : Job α} {post : α → List τ → Prop} (h : j.Gives I seen post) :
    Threaded.Gives (σ := σ) I seen (liftM j) post := by
  intro s
  refine Job.Gives.bind h fun a first hfirst => Job.Gives.pure ?_
  simpa using hfirst

theorem modify (f : σ → σ) :
    Threaded.Gives (σ := σ) I seen (modify f) fun _ new => new = [] :=
  fun _ => Job.Gives.pure rfl

/-- After steps that add nothing the rest gives what the whole gives. -/
theorem after {x : Threaded σ α} {f : α → Threaded σ β} {post : β → List τ → Prop}
    (hx : Threaded.Gives I seen x fun _ new => new = [])
    (hf : ∀ a, Threaded.Gives I seen (f a) post) : Threaded.Gives I seen (x >>= f) post := by
  refine bind hx fun a first hfirst => ?_
  subst hfirst
  simpa using hf a

theorem each {ρ : Type} {xs : List ρ} {f : ρ → Threaded σ PUnit} {adds : ρ → List τ}
    (h : ∀ x ∈ xs, Threaded.Gives I seen (f x) fun _ new => new = adds x) :
    Threaded.Gives I seen
      (forIn xs PUnit.unit fun x _ => f x >>= fun _ => Pure.pure (.yield PUnit.unit))
      fun _ new => new = xs.flatMap adds := by
  induction xs with
  | nil => exact pure rfl
  | cons x xs ih =>
    rw [List.forIn_cons, bind_assoc]
    refine bind (h x List.mem_cons_self) ?_
    rintro _ first rfl
    simp only [pure_bind]
    refine mono (ih fun y hy => h y (List.mem_cons_of_mem _ hy)) ?_
    rintro _ rest rfl
    simp

theorem each_quiet {ρ : Type} {xs : List ρ} {f : ρ → Threaded σ PUnit}
    (h : ∀ x ∈ xs, Threaded.Gives I seen (f x) fun _ new => new = []) :
    Threaded.Gives I seen
      (forIn xs PUnit.unit fun x _ => f x >>= fun _ => Pure.pure (.yield PUnit.unit))
      fun _ new => new = [] := by
  refine mono (each h) fun _ new hnew => ?_
  rw [hnew]
  exact List.flatMap_eq_nil_iff.mpr fun _ _ => rfl

end Threaded.Gives

end Regression
