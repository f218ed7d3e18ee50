import Regression.Proofs.Prologue
import Regression.Proofs.Verdicts

namespace Regression

open Text (Foreign OneLine Unmarked)

namespace Walk

variable {α β ρ : Type} {P : Machine → Prop} {V : Fatal → Machine → Prop}

/-- What a step of a walk comes to, whatever the report is. -/
def Clears (P : Machine → Prop) (V : Fatal → Machine → Prop) (x : Walking α)
    (post : α → Machine → Prop) : Prop :=
  ∀ r, Job.Clears P V (x.run r) fun a => post a.1

namespace Clears

theorem pure {a : α} {post : α → Machine → Prop} (h : ∀ m, P m → post a m) :
    Clears P V (Pure.pure a) post :=
  fun _ => Job.Clears.pure h

theorem given (a : α) : Clears P V (Pure.pure a) fun _ => P := pure fun _ hm => hm

theorem knowing {x : Walking α} {f : α → Walking β} {fact : α → Prop} {post : β → Machine → Prop}
    (hx : Clears P V x fun a m => P m ∧ fact a) (hf : ∀ a, fact a → Clears P V (f a) post) :
    Clears P V (x >>= f) post := by
  intro r
  rw [StateT.run_bind]
  exact Job.Clears.knowing (hx r) fun a ha => hf a.1 ha a.2

/-- After a step that keeps what it began with. -/
theorem after {x : Walking α} {f : α → Walking β} {post : β → Machine → Prop}
    (hx : Clears P V x fun _ => P) (hf : ∀ a, Clears P V (f a) post) : Clears P V (x >>= f) post :=
  knowing (fun r => (hx r).mono fun _ _ hm => ⟨hm, trivial⟩) fun a (_ : True) => hf a

theorem whether {p : Prop} [Decidable p] {x : Walking α} {rest : Walking β}
    {post : β → Machine → Prop} (hx : Clears P V x fun _ => P) (hr : Clears P V rest post) :
    Clears P V (if p then x >>= fun _ => rest else rest) post := by
  split
  · exact after hx fun _ => hr
  · exact hr

theorem lift {j : Job α} {post : α → Machine → Prop} (h : Job.Clears P V j post) :
    Clears P V (liftM j) post :=
  fun _ => h.bind fun _ => Job.Clears.pure fun _ hm => hm

theorem count (f : WalkReport → WalkReport) : Clears P V (Walk.count f) fun _ => P :=
  fun _ => Job.Clears.pure fun _ hm => hm

theorem each {xs : List ρ} {f : ρ → Walking PUnit} (h : ∀ x ∈ xs, Clears P V (f x) fun _ => P) :
    Clears P V (forIn xs PUnit.unit fun x _ => f x >>= fun _ => Pure.pure (.yield PUnit.unit))
      fun _ => P := by
  induction xs with
  | nil => exact given _
  | cons x xs ih =>
    rw [List.forIn_cons, bind_assoc]
    refine after (h x List.mem_cons_self) fun _ => ?_
    rw [pure_bind]
    exact ih fun y hy => h y (List.mem_cons_of_mem x hy)

end Clears

variable {K : Prop} {m₁ : Machine} {base : List Change} {c : Context} {o : WalkOptions} {mode : RunMode}
  {handle : Handler}

/-- A step of a walk that ends, where it answers, with the balance that it began with. -/
abbrev Steady (K : Prop) (m₁ : Machine) (base : List Change) (x : Walking α) : Prop :=
  Clears (Faring K m₁ base 0 0) (fun _ _ => True) x fun _ => Faring K m₁ base 0 0

/-- What is looked at of the files holds of them as long as the changes so far are tidy, and from here
on these may count as those before. -/
theorem Steady.looking {f : Machine → Walking α}
    (h : ∀ m, Faring K m₁ base 0 0 m → Steady K m₁ m.changes (f m)) :
    Steady K m₁ base (getThe Machine >>= f) := by
  intro r
  have hon : ∀ m, Job.on ((getThe Machine >>= f).run r) m = Job.on ((f m).run r) m := fun _ => rfl
  refine ⟨fun {m a m'} hm hrun => ?_, fun {m e m'} hm hrun => ?_⟩
  · rw [hon] at hrun
    exact ((h m hm r).ok hm.rebase hrun).unbase hm.since
  · rw [hon] at hrun
    exact (h m hm r).error hm.rebase hrun

theorem Steady.notes {text : String} (ht : Tidy base → Unmarked text) :
    Steady K m₁ base (liftM (note text)) :=
  Clears.lift (Faring.notes ht)

/-- What is done at a directory keeps the balance. -/
def Handles (K : Prop) (m₁ : Machine) (handle : Handler) (mode : RunMode) : Prop :=
  ∀ base d, (Tidy base → OneLine d.text) →
    Faring.Steady K m₁ base (fun _ _ => True) (handle d mode)

theorem reject_steady {d : Path} (hd : Tidy base → OneLine d.text) :
    Steady K m₁ base (Walk.reject d) := by
  unfold Walk.reject
  refine Clears.after (Steady.notes fun htidy => ?_) fun _ => Clears.count _
  exact Foreign.shows (by decide) (hd htidy)

/-- A verdict that shows no newline besides those of its directory. -/
structure Legible (d : Path) (v : Verdict) : Prop where
  warnings : ∀ text ∈ v.warnings, Unmarked text
  marker : OneLine d.text → OneLine ((v.marker.map (·.text)).getD "")

theorem oneLine_sibling {d p : Path} {ending : String} (hd : OneLine d.text)
    (hending : OneLine ending) (h : Skip.sibling? d ending = some p) : OneLine p.text := by
  simp only [Skip.sibling?, Option.bind_eq_bind, Option.bind_eq_some_iff, Option.pure_def,
    Option.some.injEq] at h
  obtain ⟨name, hname, parent, hparent, rfl⟩ := h
  refine Path.oneLine_div (Path.oneLine_parent hd hparent) ?_
  simp only [Text.oneLine_append]
  exact ⟨⟨Path.oneLine_fileName hd hname, by decide⟩, hending⟩

theorem legible_evaluate (d : Path) (m : Machine) : Legible d ((Skip.evaluate c d).on m).1 := by
  constructor
  · have hfixed : ∀ text ∈ ["[Warning: .skipif error.]", "[Warning: SKIPIF error.]"],
        Unmarked text := by
      intro text htext
      rcases List.mem_pair.mp htext with rfl | rfl <;>
        exact Foreign.unmarked (by decide) (OneLine.unmarkedBelow (by decide))
    have hreply : ∀ (reply : Skip.Reply) (warning : String), reply.warnings warning ⊆ [warning] := by
      intro reply warning
      cases reply <;> simp [Skip.Reply.warnings]
    intro text htext
    rw [(Skip.evaluate_tells c d m).warnings] at htext
    split at htext
    · cases htext
    · rcases List.mem_append.mp htext with hbeside | hinside
      · exact hfixed text (by simp [List.mem_singleton.mp (hreply _ _ hbeside)])
      · split at hinside
        · cases hinside
        · exact hfixed text (by simp [List.mem_singleton.mp (hreply _ _ hinside)])
  · intro hd
    rw [(Skip.evaluate_chooses c d m).marker]
    cases ((Skip.evaluate c d).on m).1.directive.reason? with
    | none => exact (by decide : OneLine "")
    | some reason =>
      cases hplace : Skip.place d reason with
      | none => simp [hplace]; decide
      | some p =>
        simp only [Option.bind_some, hplace, Option.map_some, Option.getD_some]
        cases reason with
        | notestSibling => exact oneLine_sibling hd (by decide) hplace
        | skipifSibling => exact oneLine_sibling hd (by decide) hplace
        | skipif =>
          cases hplace
          exact Path.oneLine_div hd (by decide)
        | notest =>
          cases hplace
          exact Path.oneLine_div hd (by decide)

theorem obey_steady (hh : Handles K m₁ handle mode) {d : Path} (hd : Tidy base → OneLine d.text)
    {v : Verdict} (hv : Legible d v) : Steady K m₁ base (Walk.obey o mode handle d v) := by
  unfold Walk.obey
  refine Clears.after (Clears.each fun line _ => Clears.lift (Faring.saying line)) fun _ => ?_
  refine Clears.after (Clears.each fun text htext => Steady.notes fun _ => hv.warnings text htext)
    fun _ => ?_
  have hend : ∀ (f : WalkReport → WalkReport) (b : Bool),
      Steady K m₁ base (do Walk.count f; pure b) := fun f b =>
    Clears.after (Clears.count f) fun _ => Clears.given _
  split
  · refine Clears.whether (Steady.notes fun htidy => ?_) (hend _ false)
    exact Foreign.shows (by decide) (hv.marker (hd htidy))
  · refine Clears.whether (Steady.notes fun _ => ?_) (hend _ true)
    exact Foreign.unmarked (by decide) (OneLine.unmarkedBelow (by decide))
  · refine Clears.after (Clears.lift (Job.Clears.get.mono fun _ _ hm => hm.1)) fun m => ?_
    split
    · exact Clears.after (Clears.lift (hh base d hd)) fun _ => hend _ true
    · refine Clears.after (Steady.notes fun htidy => ?_) fun _ => hend _ true
      exact Foreign.shows (by decide) (hd htidy)

theorem workOn_steady (hh : Handles K m₁ handle mode) {d : Path} (hd : Tidy base → OneLine d.text) :
    Steady K m₁ base (Walk.workOn c o mode handle d) := by
  unfold Walk.workOn
  refine Clears.after (Clears.lift Faring.blank) fun _ => ?_
  refine Clears.after (Steady.notes fun htidy => Foreign.shows (by decide) (hd htidy)) fun _ => ?_
  refine Clears.after (Clears.count _) fun _ => ?_
  split
  · have hnone : Legible d {} := ⟨fun _ h => (List.not_mem_nil h).elim, fun _ => by decide⟩
    exact Clears.knowing (Clears.pure fun _ hm => ⟨hm, hnone⟩) fun v hv => obey_steady hh hd hv
  · have hask : ∀ script, Faring.Aside (Skip.question c d script) := by
      intro script
      rw [Faring.Aside, Command.tool_join rfl (by decide) (by decide)]
      decide
    have hjudge : Clears (Faring K m₁ base 0 0) (fun _ _ => True)
        (liftM (liftM (Skip.evaluate c d) : Job Verdict)) fun v m =>
          Faring K m₁ base 0 0 m ∧ Legible d v :=
      Clears.lift (Job.Clears.lift fun m hm =>
        ⟨Faring.starting.evaluate hask m hm, legible_evaluate d m⟩)
    exact Clears.knowing hjudge fun v hv => obey_steady hh hd hv

theorem oneLine_below {m : Machine} (hm : m.files.OneLine) {d : Path} (hd : OneLine d.text) :
    ∀ child ∈ Walk.below m d, OneLine child.text := by
  intro child hchild
  unfold Walk.below at hchild
  split at hchild
  · next entries hlist =>
    obtain ⟨⟨name, n⟩, hentry, hsome⟩ := List.mem_filterMap.mp hchild
    simp only [Option.ite_none_right_eq_some, Option.some.injEq] at hsome
    obtain ⟨-, rfl⟩ := hsome
    exact Path.oneLine_div hd (hm.list hlist _ hentry)
  · cases hchild

theorem visit_steady (hh : Handles K m₁ handle mode) (levels : Nat) {d : Path}
    (hd : Tidy base → OneLine d.text) : Steady K m₁ base (Walk.visit c o mode handle levels d) := by
  induction levels generalizing d base with
  | zero => exact reject_steady hd
  | succ levels ih =>
    rw [Walk.visit]
    refine Steady.looking fun m hm => ?_
    have hd' : Tidy m.changes → OneLine d.text := fun htidy => hd (hm.tidy htidy)
    simp only
    split
    · exact reject_steady hd'
    · split
      · refine Clears.after (workOn_steady hh hd') fun deeper => ?_
        split
        · refine Clears.after (Clears.each fun child hchild => ih fun htidy => ?_) fun _ =>
            Clears.given _
          exact oneLine_below (hm.fair htidy).1 (hd' htidy) child hchild
        · exact Clears.given _
      · exact Clears.given _

theorem begin_steady (hh : Handles K m₁ handle mode) {root : Path} (hroot : OneLine root.text) :
    Steady K m₁ base (Walk.begin c o mode handle root) := by
  unfold Walk.begin
  refine Steady.looking fun m hm => ?_
  have hd : Tidy m.changes → OneLine root.text := fun _ => hroot
  split
  · exact reject_steady hd
  · exact visit_steady hh _ hd
  · split
    · exact reject_steady hd
    · split
      · split
        · refine Clears.after (Clears.each fun child hchild => visit_steady hh _ fun htidy => ?_)
            fun _ => Clears.given _
          exact oneLine_below (hm.fair htidy).1 hroot child hchild
        · exact reject_steady hd
      · exact Clears.given _
  · exact Clears.given _

end Walk

variable {K : Prop} {m₁ : Machine} {base : List Change} {c : Context} {o : WalkOptions} {mode : RunMode}
  {handle : Handler}

theorem walk_steady (hh : Walk.Handles K m₁ handle mode) {root : Path} (hroot : OneLine root.text) :
    Faring.Steady K m₁ base (fun _ _ => True) (walk c o mode handle root) := by
  unfold walk
  refine (Faring.notes fun _ => Foreign.shows (by decide) hroot).bind fun _ => ?_
  exact (Walk.begin_steady hh hroot {}).bind fun _ => Job.Clears.pure fun _ hm => hm

end Regression
