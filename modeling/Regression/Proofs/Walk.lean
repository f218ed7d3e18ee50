import Regression.Proofs.View

namespace Regression

variable {τ : Type}

/-- What a walk over `w` asks of the machines `I` that it runs on: they show the terrain and stay
in `I`; its own messages leave the record alone; the markers of a directory say what `w` has them
say, and the record takes down `asks` for them and `does` for what is done at a directory. -/
structure Footing (c : Context) (w : Terrain) (handle : Handler) (I : Machine → Prop)
    (seen : Machine → List τ) (asks does : Path → List τ) : Prop where
  view : ∀ m, I m → m.Shows w.files w.cwd
  note : ∀ text, (note text).Quiet I seen
  say : ∀ line, (say line).Gives I seen fun _ new => new = []
  evaluate : w.options.cleanOnly = false → ∀ d, (Skip.evaluate c d).Gives I seen fun v new =>
    v.directive = w.directive d ∧ new = asks d
  handle : ∀ d, (handle d w.mode).Gives I seen fun _ new => new = does d

namespace Terrain

variable (w : Terrain) (l : Location) (d : Path)

/-- The directive that counts: a walk that only cleans heeds no markers. -/
def heeded : SkipDirective := if w.options.cleanOnly then .test else w.directive d

theorem prunes_iff : w.Prunes d ↔ (w.heeded d).prunesChildren := by
  cases hc : w.options.cleanOnly <;> simp [Prunes, heeded, hc, SkipDirective.prunesChildren]

theorem chosen_iff : w.Chosen l d ↔ w.heeded d = .test ∧ (w.mode = .graph ∨ w.Eligible l d) := by
  cases hc : w.options.cleanOnly <;> simp [Chosen, heeded, hc]

end Terrain

namespace Footing

variable {c : Context} {w : Terrain} {handle : Handler} {I : Machine → Prop}
  {seen : Machine → List τ} {asks does : Path → List τ} {l : Location} {d : Path}

theorem reject (h : Footing c w handle I seen asks does) (d : Path) :
    Threaded.Gives I seen (Walk.reject d) fun _ new => new = [] := by
  refine Threaded.Gives.after (Threaded.Gives.lift (h.note _)) fun _ => ?_
  exact Threaded.Gives.modify _

/-- The two ways to end after an optional message: `obey` counts what it has done and answers. -/
theorem answer (h : Footing c w handle I seen asks does) (p : Prop) [Decidable p] (text : String)
    (f : WalkReport → WalkReport) (deeper : Bool) :
    Threaded.Gives I seen
      (if p then do
        liftM (Regression.note text)
        Walk.count f
        pure deeper
      else do
        Walk.count f
        pure deeper)
      fun b new => b = deeper ∧ new = [] := by
  have hend : Threaded.Gives I seen (do Walk.count f; pure deeper) fun b new =>
      b = deeper ∧ new = [] :=
    Threaded.Gives.after (Threaded.Gives.modify f) fun _ => Threaded.Gives.pure ⟨rfl, rfl⟩
  split
  · exact Threaded.Gives.after (Threaded.Gives.lift (h.note text)) fun _ => hend
  · exact hend

theorem obey (h : Footing c w handle I seen asks does)
    (hl : w.files.list w.cwd d = .ok (w.files.children l)) {v : Verdict}
    (hv : v.directive = w.heeded d) :
    Threaded.Gives I seen (Walk.obey w.options w.mode handle d v) fun deeper new =>
      (deeper = true ↔ ¬w.Prunes d) ∧ new = if w.Chosen l d then does d else [] := by
  rw [Walk.obey, hv]
  refine Threaded.Gives.after
    (Threaded.Gives.each_quiet fun line _ => Threaded.Gives.lift (h.say line).lift) fun _ => ?_
  refine Threaded.Gives.after
    (Threaded.Gives.each_quiet fun line _ => Threaded.Gives.lift (h.note line)) fun _ => ?_
  simp only [w.prunes_iff, w.chosen_iff]
  cases w.heeded d with
  | prune reason =>
    refine (h.answer _ _ _ false).mono ?_
    rintro deeper new ⟨rfl, rfl⟩
    simp [SkipDirective.prunesChildren]
  | skipSelf reason =>
    refine (h.answer _ _ _ true).mono ?_
    rintro deeper new ⟨rfl, rfl⟩
    simp [SkipDirective.prunesChildren]
  | test =>
    simp only [SkipDirective.prunesChildren, Bool.false_eq_true, not_false_eq_true, iff_true,
      true_and]
    refine Threaded.Gives.bind (Threaded.Gives.lift Job.Gives.get) ?_
    rintro m _ ⟨hm, rfl⟩
    simp only [Bool.or_eq_true, decide_eq_true_eq, Terrain.hasTests_iff (h.view m hm) hl]
    split
    · refine Threaded.Gives.bind (Threaded.Gives.lift (h.handle d)) ?_
      rintro _ new rfl
      refine Threaded.Gives.after (Threaded.Gives.modify _) fun _ => Threaded.Gives.pure ?_
      simp
    · refine Threaded.Gives.after (Threaded.Gives.lift (h.note _)) fun _ => ?_
      refine Threaded.Gives.after (Threaded.Gives.modify _) fun _ => Threaded.Gives.pure ?_
      simp

theorem workOn (h : Footing c w handle I seen asks does)
    (hl : w.files.list w.cwd d = .ok (w.files.children l)) :
    Threaded.Gives I seen (Walk.workOn c w.options w.mode handle d) fun deeper new =>
      (deeper = true ↔ ¬w.Prunes d) ∧ new = w.adds l d asks does := by
  rw [Walk.workOn]
  refine Threaded.Gives.after (Threaded.Gives.lift (h.note _)) fun _ => ?_
  refine Threaded.Gives.after (Threaded.Gives.lift (h.note _)) fun _ => ?_
  refine Threaded.Gives.after (Threaded.Gives.modify _) fun _ => ?_
  cases hc : w.options.cleanOnly with
  | true =>
    simp only [↓reduceIte, pure_bind]
    refine (h.obey hl (by simp [Terrain.heeded, hc])).mono fun deeper new hnew => ?_
    simpa [Terrain.adds, hc] using hnew
  | false =>
    simp only [Bool.false_eq_true, ↓reduceIte]
    refine Threaded.Gives.bind (Threaded.Gives.lift (h.evaluate hc d).lift) ?_
    rintro v first ⟨hv, rfl⟩
    refine (h.obey hl (by simp [Terrain.heeded, hc, hv])).mono fun deeper new hnew => ?_
    simpa [Terrain.adds, hc] using hnew

/-- A path longer than any that the system takes names no directory. -/
theorem not_accessible_of_long (hd : FileTree.pathLimit < d.text.utf8ByteSize) :
    ¬w.Accessible d := by
  intro ha
  obtain ⟨l, dm, hf, -⟩ := ha.found
  have hc := (FileTree.findAt_ok hf).1
  simp only [FileTree.checkPath, if_pos hd] at hc
  split at hc
  · cases hc
  · split at hc <;> cases hc

/-- Where a directory below one that is found lies. -/
theorem at_below (hw : w.files.WellFormed) {n : Node} (hf : w.files.find w.cwd d = .ok (l, n))
    {s : String} (hs : s ∈ w.files.subdirectories l) :
    IsName s ∧ ∀ l' n', w.files.find w.cwd (d / s) = .ok (l', n') → l' = s :: l := by
  obtain ⟨dm, hmem⟩ := FileTree.mem_subdirectories.mp hs
  have hname : IsName s := hw.named _ hmem s List.mem_cons_self
  exact ⟨hname, fun l' n' hf' =>
    FileTree.find_child hf hname (FileTree.node?_of_mem hw hmem) hf'⟩

theorem visitBelow {m : Machine} (hsee : m.Shows w.files w.cwd)
    (hl : w.files.list w.cwd d = .ok (w.files.children l)) (c : Context) (handle : Handler)
    (levels : Nat) {adds : String → List τ}
    (hchild : ∀ s ∈ w.files.subdirectories l, Threaded.Gives I seen
      (Walk.visit c w.options w.mode handle levels (d / s)) fun _ new => new = adds s) :
    Threaded.Gives (σ := WalkReport) I seen
      (forIn (Walk.below m d) PUnit.unit fun child _ => do
        Walk.visit c w.options w.mode handle levels child
        pure (ForInStep.yield PUnit.unit))
      fun _ new => new = (w.files.subdirectories l).flatMap adds := by
  rw [Terrain.below_shown hsee hl, List.forIn_map]
  exact Threaded.Gives.each hchild

/-- Levels run out where paths get too long. The place `l` is the one at which the directory lies,
if it can be found at all. -/
theorem visit (h : Footing c w handle I seen asks does) (hw : w.files.WellFormed) (levels : Nat)
    {l : Location} {d : Path}
    (hat : ∀ l' n, w.files.find w.cwd d = .ok (l', n) → l' = l)
    (hlevels : FileTree.pathLimit < d.text.utf8ByteSize + levels) :
    Threaded.Gives I seen (Walk.visit c w.options w.mode handle levels d) fun _ new =>
      new = w.tour (fun l d => w.adds l d asks does) l d := by
  induction levels generalizing l d with
  | zero =>
    rw [Terrain.tour_eq, if_neg fun ha => not_accessible_of_long (by omega) ha.1]
    exact h.reject d
  | succ levels ih =>
    rw [Walk.visit]
    refine Threaded.Gives.bind (Threaded.Gives.lift Job.Gives.get) ?_
    rintro m _ ⟨hm, rfl⟩
    have hsee := h.view m hm
    simp only [List.nil_append]
    rw [Terrain.tour_eq]
    split
    · next ha =>
      have hna : ¬w.Accessible d := fun hacc => by simp [(Terrain.isAccessible_iff hsee).mpr hacc] at ha
      rw [if_neg fun ho => hna ho.1]
      exact h.reject d
    · next ha =>
      have hacc : w.Accessible d := by simpa [Terrain.isAccessible_iff hsee] using ha
      obtain ⟨l', dm, hf, hl⟩ := hacc.found
      obtain rfl := hat l' _ hf
      split
      · next hb =>
        have hin : ¬Terrain.InBundle d := fun hin => by
          simp [Terrain.inSymbolBundle_iff.mpr hin] at hb
        have hbelow := visitBelow hsee hl c handle levels fun s hs => by
          obtain ⟨hname, hplace⟩ := at_below hw hf hs
          have := d.size_join hname.whole hname.filled
          exact ih hplace (by omega)
        rw [if_pos ⟨hacc, hin⟩]
        refine Threaded.Gives.bind (h.workOn hl) ?_
        rintro deeper new ⟨hdeeper, rfl⟩
        simp only [Bool.and_eq_true, hdeeper, and_comm (a := ¬w.Prunes d)]
        split
        · refine Threaded.Gives.bind hbelow ?_
          rintro _ rest rfl
          exact Threaded.Gives.pure (by simp)
        · exact Threaded.Gives.pure rfl
      · next hb =>
        have hin : Terrain.InBundle d := by simpa [Terrain.inSymbolBundle_iff] using hb
        rw [if_neg fun ho => ho.2 hin]
        exact Threaded.Gives.pure rfl

/-- A link as the root is passed through. -/
theorem passThrough (h : Footing c w handle I seen asks does) (hw : w.files.WellFormed)
    {m : Machine} (hsee : m.Shows w.files w.cwd) {root : Path} :
    Threaded.Gives I seen
      (if !w.files.isThere w.cwd root then Walk.reject root
      else if w.options.recurse && w.files.isDirectory w.cwd root then
        if (w.files.list w.cwd root).isOk then do
          forIn (Walk.below m root) PUnit.unit fun child _ => do
            Walk.visit c w.options w.mode handle FileTree.pathLimit child
            pure (ForInStep.yield PUnit.unit)
          pure ()
        else Walk.reject root
      else pure ())
      fun _ new => new =
        match w.files.find w.cwd root with
        | .ok (l, .directory _) =>
          if w.options.recurse ∧ (w.files.list w.cwd root).isOk then
            (w.files.subdirectories l).flatMap fun s =>
              w.tour (fun l d => w.adds l d asks does) (s :: l) (root / s)
          else []
        | _ => [] := by
  cases hf : w.files.find w.cwd root with
  | error f =>
    simp only [FileTree.isThere, hf, Except.isOk, Except.toBool, Bool.not_false, ↓reduceIte]
    exact h.reject root
  | ok found =>
    obtain ⟨l, n⟩ := found
    simp only [FileTree.isThere, FileTree.isDirectory, hf, Except.isOk, Except.toBool,
      Bool.not_true, Bool.false_eq_true, ↓reduceIte]
    cases n with
    | directory dm =>
      simp only [Node.isDirectory, Bool.and_true]
      by_cases hr : w.options.recurse = true
      · simp only [hr, ↓reduceIte, true_and]
        cases hl : w.files.list w.cwd root with
        | error f => exact h.reject root
        | ok es =>
          obtain ⟨l', dm', hf', rfl⟩ := Terrain.list_ok hl
          obtain rfl : l' = l := (Prod.mk.inj (Except.ok.inj (hf'.symm.trans hf))).1
          have hbelow := visitBelow hsee hl c handle FileTree.pathLimit fun s hs => by
            obtain ⟨hname, hplace⟩ := at_below hw hf hs
            have := root.size_join hname.whole hname.filled
            exact h.visit hw _ hplace (by omega)
          refine Threaded.Gives.bind hbelow ?_
          rintro _ rest rfl
          exact Threaded.Gives.pure (by simp)
      · simp only [hr, ↓reduceIte, false_and, Bool.false_eq_true]
        exact Threaded.Gives.pure rfl
    | _ =>
      simp only [Node.isDirectory, Bool.and_false, Bool.false_eq_true, ↓reduceIte]
      exact Threaded.Gives.pure rfl

theorem begin (h : Footing c w handle I seen asks does) (hw : w.files.WellFormed) (root : Path) :
    Threaded.Gives I seen (Walk.begin c w.options w.mode handle root) fun _ new =>
      new = w.round (fun l d => w.adds l d asks does) root := by
  rw [Walk.begin]
  refine Threaded.Gives.bind (Threaded.Gives.lift Job.Gives.get) ?_
  rintro m _ ⟨hm, rfl⟩
  have hsee := h.view m hm
  simp only [List.nil_append, Terrain.round]
  cases hr : w.files.findItself w.cwd root with
  | error f =>
    rw [hsee.findItself_error hr]
    exact h.reject root
  | ok found =>
    obtain ⟨l, n⟩ := found
    obtain ⟨n', hm', hn⟩ := hsee.findItself_ok hr
    rw [hm']
    cases n with
    | directory dm =>
      cases n' <;> cases hn
      have hf := FileTree.find_of_findItself hr rfl
      have hpos : 0 < root.text.utf8ByteSize :=
        Nat.pos_of_ne_zero fun h0 => FileTree.text_ne_of_checkPath (FileTree.findAt_ok hf).1
          (String.utf8ByteSize_eq_zero_iff.mp h0)
      refine h.visit hw _ ?_ (by omega)
      intro l' n' hf'
      rw [hf] at hf'
      exact (Prod.mk.inj (Except.ok.inj hf')).1.symm
    | link target =>
      cases n' <;> cases hn
      simp only [hsee.isThere, hsee.isDirectory, hsee.list_isOk]
      exact h.passThrough hw hsee
    | file =>
      cases n' <;> cases hn
      exact Threaded.Gives.pure rfl
    | device =>
      cases n' <;> cases hn
      exact Threaded.Gives.pure rfl

theorem walk (h : Footing c w handle I seen asks does) (hw : w.files.WellFormed) (root : Path) :
    (Regression.walk c w.options w.mode handle root).Gives I seen fun _ new =>
      new = w.round (fun l d => w.adds l d asks does) root := by
  refine Job.Gives.after (h.note _) fun _ => ?_
  refine Job.Gives.bind (h.begin hw root {}) ?_
  rintro ⟨_, report⟩ new rfl
  exact Job.Gives.pure (by simp)

end Footing

end Regression
