import Regression.Proofs.Job

namespace Regression

variable {α β σ ρ : Type} {P : Machine → Prop}

/-- However a job ends, what holds of the machine goes on to hold; what it answers is as `post`
says. -/
def Job.Keeps (P : Machine → Prop) (j : Job α) (post : α → Prop) : Prop :=
  ∀ m, P m → P (j.on m).2 ∧ ∀ a, (j.on m).1 = .ok a → post a

/-- A job of which only that counts. -/
abbrev Job.Stays (P : Machine → Prop) (j : Job α) : Prop := j.Keeps P fun _ => True

def Effect.Stays (P : Machine → Prop) (e : Effect α) : Prop := ∀ m, P m → P (e.on m).2

/-- The same of a job that hands on a value, which `Q` goes on to hold of. -/
def Threaded.Keeps (P : Machine → Prop) (Q : σ → Prop) (x : Threaded σ α) (post : α → Prop) : Prop :=
  ∀ s, Q s → (x.run s).Keeps P fun r => post r.1 ∧ Q r.2

abbrev Threaded.Stays (P : Machine → Prop) (Q : σ → Prop) (x : Threaded σ α) : Prop :=
  x.Keeps P Q fun _ => True

namespace Job.Keeps

theorem pure {a : α} {post : α → Prop} (h : post a) : Job.Keeps P (pure a) post := by
  intro m hm
  refine ⟨hm, fun b hb => ?_⟩
  cases hb
  exact h

theorem given (a : α) : Job.Stays P (Pure.pure a) := pure trivial

theorem throw (e : Error) (post : α → Prop) : Job.Keeps P (throw e : Job α) post := by
  intro m hm
  refine ⟨hm, fun b hb => ?_⟩
  cases hb

theorem get : Job.Stays P get := fun _ hm => ⟨hm, fun _ _ => trivial⟩

theorem mono {j : Job α} {post weak : α → Prop} (h : j.Keeps P post) (hw : ∀ a, post a → weak a) :
    j.Keeps P weak := by
  intro m hm
  obtain ⟨hm', hpost⟩ := h m hm
  exact ⟨hm', fun a ha => hw a (hpost a ha)⟩

theorem stays {j : Job α} {post : α → Prop} (h : j.Keeps P post) : j.Stays P :=
  h.mono fun _ _ => trivial

/-- What held before a run holds of the machine that the run leaves. -/
theorem leaves {j : Job α} {post : α → Prop} {m m' : Machine} {result : Except Error α}
    (h : j.Keeps P post) (hm : P m) (hrun : j.on m = (result, m')) : P m' := by
  have hkept := (h m hm).1
  rwa [hrun] at hkept

theorem bind {j : Job α} {f : α → Job β} {mid : α → Prop} {post : β → Prop} (hj : j.Keeps P mid)
    (hf : ∀ a, mid a → (f a).Keeps P post) : (j >>= f).Keeps P post := by
  intro m hm
  obtain ⟨hm', hmid⟩ := hj m hm
  rw [Job.on_bind]
  cases hrun : j.on m with
  | mk result m' =>
    rw [hrun] at hm' hmid
    cases result with
    | error e =>
      refine ⟨hm', fun b hb => ?_⟩
      cases hb
    | ok a => exact hf a (hmid a rfl) m' hm'

/-- Where the answer of the first job does not matter. -/
theorem after {j : Job α} {f : α → Job β} {mid : α → Prop} {post : β → Prop} (hj : j.Keeps P mid)
    (hf : ∀ a, (f a).Keeps P post) : (j >>= f).Keeps P post :=
  bind hj fun a _ => hf a

/-- A job that is done only sometimes, before the rest. -/
theorem whether {p : Prop} [Decidable p] {j : Job α} {rest : Job β} {mid : α → Prop}
    {post : β → Prop} (hj : j.Keeps P mid) (hr : rest.Keeps P post) :
    Job.Keeps P (if p then j >>= fun _ => rest else rest) post := by
  split
  · exact after hj fun _ => hr
  · exact hr

theorem either {p : Prop} [Decidable p] {j j' : Job α} {post : α → Prop} (hj : j.Keeps P post)
    (hj' : j'.Keeps P post) : Job.Keeps P (if p then j else j') post := by
  split
  · exact hj
  · exact hj'

theorem modify {f : Machine → Machine} (h : ∀ m, P m → P (f m)) : Job.Stays P (modify f) :=
  fun m hm => ⟨h m hm, fun _ _ => trivial⟩

theorem lift {e : Effect α} (h : e.Stays P) : Job.Stays P (liftM e : Job α) :=
  fun m hm => ⟨h m hm, fun _ _ => trivial⟩

theorem outcome {j : Job α} {post : α → Prop} (h : j.Keeps P post) :
    Job.Keeps P (Regression.outcome j) fun r => ∀ a, r = .ok a → post a := by
  intro m hm
  obtain ⟨hm', hpost⟩ := h m hm
  refine ⟨hm', fun r hr a ha => hpost a ?_⟩
  cases hr
  exact ha

theorem each {xs : List ρ} {f : ρ → Job α} (h : ∀ x ∈ xs, (f x).Stays P) :
    Job.Stays P
      (forIn xs PUnit.unit fun x _ => f x >>= fun _ => Pure.pure (.yield PUnit.unit)) := by
  induction xs with
  | nil => exact pure trivial
  | cons x xs ih =>
    rw [List.forIn_cons, bind_assoc]
    refine after (h x List.mem_cons_self) fun _ => ?_
    rw [pure_bind]
    exact ih fun y hy => h y (List.mem_cons_of_mem x hy)

end Job.Keeps

namespace Effect.Stays

theorem pure (a : α) : Effect.Stays P (pure a) := fun _ hm => hm

theorem get : Effect.Stays P get := fun _ hm => hm

theorem bind {e : Effect α} {f : α → Effect β} (he : e.Stays P) (hf : ∀ a, (f a).Stays P) :
    Effect.Stays P (e >>= f) :=
  fun m hm => hf _ _ (he m hm)

theorem attempt {j : Job α} {post : α → Prop} (h : j.Keeps P post) :
    Effect.Stays P (Regression.attempt j) := by
  intro m hm
  rw [attempt_on]
  exact (h m hm).1

end Effect.Stays

namespace Threaded.Keeps

variable {Q : σ → Prop}

theorem pure {a : α} {post : α → Prop} (h : post a) : Threaded.Keeps P Q (pure a) post :=
  fun _ hs => Job.Keeps.pure ⟨h, hs⟩

theorem given (a : α) : Threaded.Stays P Q (Pure.pure a) := pure trivial

theorem throw (e : Error) (post : α → Prop) :
    Threaded.Keeps P Q (throw e : Threaded σ α) post :=
  fun _ _ => Job.Keeps.throw e _

theorem get : Threaded.Keeps P Q get Q := fun _ hs => Job.Keeps.pure ⟨hs, hs⟩

theorem modify {f : σ → σ} (h : ∀ s, Q s → Q (f s)) : Threaded.Stays P Q (modify f) :=
  fun s hs => Job.Keeps.pure ⟨trivial, h s hs⟩

theorem bind {x : Threaded σ α} {f : α → Threaded σ β} {mid : α → Prop} {post : β → Prop}
    (hx : Threaded.Keeps P Q x mid) (hf : ∀ a, mid a → Threaded.Keeps P Q (f a) post) :
    Threaded.Keeps P Q (x >>= f) post := by
  intro s hs
  rw [StateT.run_bind]
  exact Job.Keeps.bind (hx s hs) fun r hr => hf r.1 hr.1 r.2 hr.2

theorem after {x : Threaded σ α} {f : α → Threaded σ β} {mid : α → Prop} {post : β → Prop}
    (hx : Threaded.Keeps P Q x mid) (hf : ∀ a, Threaded.Keeps P Q (f a) post) :
    Threaded.Keeps P Q (x >>= f) post :=
  bind hx fun a _ => hf a

theorem whether {p : Prop} [Decidable p] {x : Threaded σ α} {rest : Threaded σ β}
    {mid : α → Prop} {post : β → Prop} (hx : Threaded.Keeps P Q x mid)
    (hr : Threaded.Keeps P Q rest post) :
    Threaded.Keeps P Q (if p then x >>= fun _ => rest else rest) post := by
  split
  · exact after hx fun _ => hr
  · exact hr

theorem either {p : Prop} [Decidable p] {x x' : Threaded σ α} {post : α → Prop}
    (hx : Threaded.Keeps P Q x post) (hx' : Threaded.Keeps P Q x' post) :
    Threaded.Keeps P Q (if p then x else x') post := by
  split
  · exact hx
  · exact hx'

theorem map {x : Threaded σ α} {f : α → β} {mid : α → Prop} {post : β → Prop}
    (hx : Threaded.Keeps P Q x mid) (hf : ∀ a, mid a → post (f a)) :
    Threaded.Keeps P Q (f <$> x) post := by
  rw [map_eq_pure_bind]
  exact bind hx fun a ha => pure (hf a ha)

theorem lift {j : Job α} {post : α → Prop} (h : j.Keeps P post) :
    Threaded.Keeps P Q (liftM j : Threaded σ α) post :=
  fun _ hs => Job.Keeps.bind h fun _ ha => Job.Keeps.pure ⟨ha, hs⟩

theorem each {xs : List ρ} {f : ρ → Threaded σ α} (h : ∀ x ∈ xs, Threaded.Stays P Q (f x)) :
    Threaded.Stays P Q
      (forIn xs PUnit.unit fun x _ => f x >>= fun _ => Pure.pure (.yield PUnit.unit)) := by
  induction xs with
  | nil => exact pure trivial
  | cons x xs ih =>
    rw [List.forIn_cons, bind_assoc]
    refine after (h x List.mem_cons_self) fun _ => ?_
    rw [pure_bind]
    exact ih fun y hy => h y (List.mem_cons_of_mem x hy)

end Threaded.Keeps

end Regression
