import Mathlib.Data.List.Forall2
import Mathlib.Logic.Function.Basic
import Regression.Proofs.Deeds
import Regression.Proofs.Walk

namespace Regression

namespace Walk

/-- The line for what is left out with all below it by a condition. -/
def skippingAll (v : Verdict) : String :=
  "[Skipping directory and children based on .skipif environment settings in " ++
    ((v.marker.map (·.text)).getD "") ++ "]"

def skippingSelf : String := "[Skipping directory based on SKIPIF environment settings]"

def noTests (d : Path) : String := "[No tests in directory " ++ d.text ++ "]"

end Walk

namespace Verdict

/-- What follows from a verdict, where `handed` says whether the directory is handed over. -/
def outcome (v : Verdict) (d : Path) (handed : Bool) : List Deed :=
  match v.directive with
  | .prune reason => if reason = .skipifSibling then [.noted (Walk.skippingAll v)] else []
  | .skipSelf reason => if reason = .skipif then [.noted Walk.skippingSelf] else []
  | .test => if handed then [.handed d] else [.noted (Walk.noTests d)]

def deeds (v : Verdict) (d : Path) (handed : Bool) : List Deed :=
  v.info.map .said ++ (v.warnings.map .noted ++ v.outcome d handed)

def counted (v : Verdict) (handed : Bool) : WalkReport :=
  match v.directive with
  | .prune _ => { pruned := 1 }
  | .skipSelf _ => { skipped := 1 }
  | .test => if handed then { handled := 1 } else { empty := 1 }

end Verdict

namespace Walk

/-- What a walk has of one directory. -/
inductive Entry where
  | refused (directory : Path)
  /-- There is no verdict where the walk only cleans. -/
  | worked (directory : Path) (verdict : Option Verdict) (handed : Bool)

namespace Entry

/-- What counts where no marker is asked. -/
def heeded (verdict : Option Verdict) : Verdict := verdict.getD {}

def directory : Entry → Path
  | refused d => d
  | worked d .. => d

def deeds : Entry → List Deed
  | refused d => [.noted (cannotEnter d)]
  | worked d v handed =>
    .noted "" :: .noted (workingOn d) ::
      ((v.map (Deed.judged d)).toList ++ (heeded v).deeds d handed)

def counted : Entry → WalkReport
  | refused _ => { inaccessible := 1 }
  | worked _ v handed => { visited := 1 } + (heeded v).counted handed

/-- An entry that a walk with these options and in this mode can have. -/
def Sound (o : WalkOptions) (mode : RunMode) : Entry → Prop
  | refused _ => True
  | worked _ v handed =>
    (v = none ↔ o.cleanOnly = true) ∧ (handed = true → (heeded v).directive = .test) ∧
      (mode = .graph → (heeded v).directive = .test → handed = true)

end Entry

/-- What the entries add up to. -/
def counts (es : List Entry) : WalkReport := es.foldr (fun e r => e.counted + r) {}

@[simp] theorem counts_nil : counts [] = {} := rfl

@[simp] theorem counts_cons (e : Entry) (es : List Entry) :
    counts (e :: es) = e.counted + counts es := rfl

@[simp] theorem counts_append (es es' : List Entry) :
    counts (es ++ es') = counts es + counts es' := by
  induction es with
  | nil => rw [List.nil_append, counts_nil, WalkReport.nothing_add]
  | cons e es ih => rw [List.cons_append, counts_cons, counts_cons, ih, WalkReport.add_assoc]

/-- Entries that account for what a walk has counted and done. -/
structure Journal (o : WalkOptions) (mode : RunMode) (es : List Entry) (counted : WalkReport)
    (deeds : List Deed) : Prop where
  counted : counted = counts es
  deeds : deeds = es.flatMap Entry.deeds
  sound : ∀ e ∈ es, e.Sound o mode
  /-- Without recursion there is one directory at most. -/
  alone : o.recurse = false → es.length ≤ 1

end Walk

/-- A tree that the machines `I` of a walk all show. -/
structure Terrain.Shown (w : Terrain) (o : WalkOptions) (mode : RunMode) (I : Machine → Prop) :
    Prop where
  options : w.options = o
  mode : w.mode = mode
  files : w.files.WellFormed
  shows : ∀ n, I n → n.Shows w.files w.cwd

/-- The entries that a tree asks for, from a directory downwards, whatever the verdicts. -/
inductive Terrain.Visits (w : Terrain) : Location → Path → List Walk.Entry → Prop where
  | refused {l : Location} {d : Path} (h : ¬w.Accessible d) : w.Visits l d [.refused d]
  | bundled {l : Location} {d : Path} (ha : w.Accessible d) (hb : Terrain.InBundle d) :
    w.Visits l d []
  | stayed {l : Location} {d : Path} {v : Option Verdict} {handed : Bool} (ha : w.Accessible d)
    (hb : ¬Terrain.InBundle d)
    (hh : handed = true ↔ (Walk.Entry.heeded v).directive = .test ∧
      (w.mode = .graph ∨ w.Eligible l d))
    (hs : w.options.recurse = false ∨ (Walk.Entry.heeded v).directive.prunesChildren = true) :
    w.Visits l d [.worked d v handed]
  | descended {l : Location} {d : Path} {v : Option Verdict} {handed : Bool}
    {rest : String → List Walk.Entry} (ha : w.Accessible d) (hb : ¬Terrain.InBundle d)
    (hh : handed = true ↔ (Walk.Entry.heeded v).directive = .test ∧
      (w.mode = .graph ∨ w.Eligible l d))
    (hr : w.options.recurse = true)
    (hs : (Walk.Entry.heeded v).directive.prunesChildren = false)
    (below : ∀ s ∈ w.files.subdirectories l, w.Visits (s :: l) (d / s) (rest s)) :
    w.Visits l d (.worked d v handed :: (w.files.subdirectories l).flatMap rest)

namespace Machine.Alike

variable {m n : Machine} (h : m.Alike n)

include h

/-- Both list a directory, with the same names of the same directories, or neither does. -/
theorem lists (d : Path) :
    (∃ f f', m.list d = .error f ∧ n.list d = .error f') ∨
      ∃ es es', m.list d = .ok es ∧ n.list d = .ok es' ∧
        es.map (fun e => (e.1, e.2.isDirectory)) = es'.map fun e => (e.1, e.2.isDirectory) := by
  have hlist := h.list d
  cases hm : m.list d with
  | error f =>
    cases hn : n.list d with
    | error f' => exact .inl ⟨f, f', rfl, rfl⟩
    | ok es =>
      rw [hm, hn] at hlist
      cases hlist
  | ok es =>
    cases hn : n.list d with
    | error f' =>
      rw [hm, hn] at hlist
      cases hlist
    | ok es' =>
      rw [hm, hn] at hlist
      exact .inr ⟨es, es', rfl, rfl, Except.ok.inj hlist⟩

theorem list_isOk (d : Path) : (m.list d).isOk = (n.list d).isOk := by
  rcases h.lists d with ⟨f, f', hm, hn⟩ | ⟨es, es', hm, hn, -⟩ <;> rw [hm, hn] <;> rfl

theorem isAccessible (d : Path) : Walk.isAccessible m d = Walk.isAccessible n d := by
  unfold Walk.isAccessible
  rw [h.isDirectory, h.isThere, h.list_isOk]

theorem below (d : Path) : Walk.below m d = Walk.below n d := by
  unfold Walk.below
  rcases h.lists d with ⟨f, f', hm, hn⟩ | ⟨es, es', hm, hn, he⟩
  · rw [hm, hn]
  · have hsame := congrArg
      (List.filterMap fun e : String × Bool => if e.2 then some (d / e.1) else none) he
    rw [hm, hn]
    simpa only [List.filterMap_map, Function.comp_def] using hsame

theorem hasTests (o : WalkOptions) (d : Path) (mode : RunMode) :
    Walk.hasTests m o d mode = Walk.hasTests n o d mode := by
  unfold Walk.hasTests
  rcases h.lists d with ⟨f, f', hm, hn⟩ | ⟨es, es', hm, hn, he⟩
  · rw [hm, hn]
  · have hsame := congrArg (List.any · fun e => !e.2 && Walk.isTestName o mode e.1) he
    simp only [List.any_map, Function.comp_def] at hsame
    simp only [hm, hn, hsame, h.isExecutable]

end Machine.Alike

namespace Walk

variable {c : Context} {o : WalkOptions} {mode : RunMode} {whole : Handler} {I : Machine → Prop}
  {d : Path}

theorem reject_traced (hI : Lasts c mode whole I) (d : Path) :
    Traced c mode whole I (fun _ => reject d) fun _ counted deeds =>
      Journal o mode [.refused d] counted deeds := by
  refine Traced.after hI (Traced.note _) fun _ => ?_
  refine (Traced.count _ { inaccessible := 1 } fun _ => rfl).mono ?_
  rintro _ _ _ ⟨rfl, rfl⟩
  exact ⟨rfl, rfl, fun e he => by rw [List.mem_singleton.mp he]; trivial, fun _ => Nat.le_refl 1⟩

/-- An optional message before a directory is counted. -/
theorem count_traced (hI : Lasts c mode whole I) (p : Prop) [Decidable p] (text : String)
    {f : WalkReport → WalkReport} (counted : WalkReport) (hf : ∀ r, f r = r + counted)
    (deeper : Bool) :
    Traced c mode whole I (fun _ =>
      if p then do
        liftM (note text)
        count f
        pure deeper
      else do
        count f
        pure deeper) fun b counted' deeds =>
      b = deeper ∧ counted' = counted ∧ deeds = if p then [.noted text] else [] := by
  have hend : Traced c mode whole I (fun _ => do count f; pure deeper) fun b counted' deeds =>
      b = deeper ∧ counted' = counted ∧ deeds = [] := by
    refine Traced.after hI (Traced.count f counted hf) fun _ => Traced.pure ⟨rfl, ?_, rfl⟩
    exact WalkReport.add_nothing counted
  split
  · refine Traced.after hI (Traced.note text) fun _ => hend.mono ?_
    rintro b _ _ ⟨rfl, rfl, rfl⟩
    exact ⟨rfl, WalkReport.nothing_add _, rfl⟩
  · exact hend

/-- A verdict is obeyed; whether the directory is handed over, `handed` says. -/
theorem obey_traced (hI : Lasts c mode whole I) (d : Path) (v : Verdict) :
    Traced c mode whole I (fun h => obey o mode h d v) fun deeper counted deeds => ∃ handed,
      counted = v.counted handed ∧ deeds = v.deeds d handed ∧
        deeper = (!v.directive.prunesChildren) ∧ (handed = true → v.directive = .test) ∧
        (v.directive = .test → ∃ n, I n ∧
          (handed = true ↔ mode = .graph ∨ hasTests n o d mode = true)) := by
  unfold obey
  refine Traced.after hI (Traced.eachOne hI fun line _ => Traced.say line) fun _ => ?_
  refine Traced.after hI (Traced.eachOne hI fun warning _ => Traced.note warning) fun _ => ?_
  simp only [WalkReport.nothing_add, Verdict.counted, Verdict.deeds, Verdict.outcome,
    List.append_cancel_left_eq]
  cases hv : v.directive with
  | prune reason =>
    refine (count_traced hI _ _ { pruned := 1 } (fun _ => rfl) false).mono ?_
    rintro deeper _ _ ⟨rfl, rfl, rfl⟩
    exact ⟨false, rfl, rfl, rfl, by simp, by simp⟩
  | skipSelf reason =>
    refine (count_traced hI _ _ { skipped := 1 } (fun _ => rfl) true).mono ?_
    rintro deeper _ _ ⟨rfl, rfl, rfl⟩
    exact ⟨false, rfl, rfl, rfl, by simp, by simp⟩
  | test =>
    simp only
    refine Traced.look (fun n hn => ?_) fun h m n hmn => by rw [hmn.hasTests]
    have htests : (decide (mode = .graph) || hasTests n o d mode) = true ↔
        mode = .graph ∨ hasTests n o d mode = true := by simp
    split
    · next hyes =>
      refine Traced.after hI (Traced.hand d) fun _ => ?_
      refine Traced.after hI (Traced.count _ { handled := 1 } fun _ => rfl) fun _ => ?_
      exact Traced.pure ⟨true, rfl, rfl, rfl, fun _ => trivial,
        fun _ => ⟨n, hn, iff_of_true rfl (htests.mp hyes)⟩⟩
    · next hno =>
      refine Traced.after hI (Traced.note _) fun _ => ?_
      refine Traced.after hI (Traced.count _ { empty := 1 } fun _ => rfl) fun _ => ?_
      exact Traced.pure ⟨false, rfl, rfl, rfl, by simp,
        fun _ => ⟨n, hn, iff_of_false (by simp) fun h => hno (htests.mpr h)⟩⟩

theorem workOn_traced (hI : Lasts c mode whole I) (d : Path) :
    Traced c mode whole I (fun h => workOn c o mode h d) fun deeper counted deeds => ∃ v handed,
      counted = (Entry.worked d v handed).counted ∧ deeds = (Entry.worked d v handed).deeds ∧
        (Entry.worked d v handed).Sound o mode ∧
        deeper = (!(Entry.heeded v).directive.prunesChildren) ∧
        ((Entry.heeded v).directive = .test → ∃ n, I n ∧
          (handed = true ↔ mode = .graph ∨ hasTests n o d mode = true)) := by
  unfold workOn
  refine Traced.after hI (Traced.note "") fun _ => ?_
  refine Traced.after hI (Traced.note (workingOn d)) fun _ => ?_
  refine Traced.after hI (Traced.count _ { visited := 1 } fun _ => rfl) fun _ => ?_
  -- Whatever the verdict, what is left is to obey it.
  have hobey : ∀ v, (v = none ↔ o.cleanOnly = true) →
      Traced c mode whole I (fun h => obey o mode h d (Entry.heeded v)) fun deeper counted deeds =>
        ∃ handed, counted = (Entry.heeded v).counted handed ∧
          deeds = (Entry.heeded v).deeds d handed ∧ (Entry.worked d v handed).Sound o mode ∧
          deeper = (!(Entry.heeded v).directive.prunesChildren) ∧
          ((Entry.heeded v).directive = .test → ∃ n, I n ∧
            (handed = true ↔ mode = .graph ∨ hasTests n o d mode = true)) := by
    intro v hv
    refine (obey_traced hI d (Entry.heeded v)).mono ?_
    rintro deeper _ _ ⟨handed, rfl, rfl, hdeeper, honly, hlook⟩
    refine ⟨handed, rfl, rfl, ⟨hv, honly, fun hmode htest => ?_⟩, hdeeper, hlook⟩
    obtain ⟨_, -, hiff⟩ := hlook htest
    exact hiff.mpr (.inl hmode)
  split
  · next hc =>
    simp only [pure_bind]
    refine (hobey none (by simp [hc])).mono ?_
    rintro deeper _ _ ⟨handed, rfl, rfl, hrest⟩
    exact ⟨none, handed, by simp [Entry.counted], rfl, hrest⟩
  · next hc =>
    refine Traced.bind hI (Traced.judge d) ?_
    rintro v _ _ ⟨rfl, rfl⟩
    refine (hobey (some v) (by simp [hc])).mono ?_
    rintro deeper _ _ ⟨handed, rfl, rfl, hrest⟩
    exact ⟨some v, handed, by simp [Entry.counted], rfl, hrest⟩

/-- On a tree that stays as it is, these are the entries that it asks for from a directory downwards,
where `levels` reach further than any path. -/
def Asked (o : WalkOptions) (mode : RunMode) (I : Machine → Prop) (levels : Nat) (d : Path)
    (es : List Entry) : Prop :=
  ∀ (w : Terrain) (l : Location), w.Shown o mode I →
    (∀ l' n, w.files.find w.cwd d = .ok (l', n) → l' = l) →
    FileTree.pathLimit < d.text.utf8ByteSize + levels → w.Visits l d es

theorem Journal.cons {e : Entry} {es : List Entry} {counted : WalkReport} {deeds : List Deed}
    (h : Journal o mode es counted deeds) (he : e.Sound o mode) (hr : o.recurse = true) :
    Journal o mode (e :: es) (e.counted + counted) (e.deeds ++ deeds) where
  counted := by rw [h.counted, counts_cons]
  deeds := by rw [h.deeds, List.flatMap_cons]
  sound := List.forall_mem_cons.mpr ⟨he, h.sound⟩
  alone := by simp [hr]

theorem Journal.append {es es' : List Entry} {counted counted' : WalkReport}
    {deeds deeds' : List Deed} (h : Journal o mode es counted deeds)
    (h' : Journal o mode es' counted' deeds') (hr : o.recurse = true) :
    Journal o mode (es ++ es') (counted + counted') (deeds ++ deeds') where
  counted := by rw [h.counted, h'.counted, counts_append]
  deeds := by rw [h.deeds, h'.deeds, List.flatMap_append]
  sound := List.forall_mem_append.mpr ⟨h.sound, h'.sound⟩
  alone := by simp [hr]

theorem Journal.strung {children : List Path} {P : Path → List Entry → Prop} {counted : WalkReport}
    {deeds : List Deed} (hr : o.recurse = true)
    (h : Strung (fun child counted deeds => ∃ es, Journal o mode es counted deeds ∧ P child es)
      children counted deeds) :
    ∃ ess, children.Forall₂ P ess ∧ Journal o mode ess.flatten counted deeds := by
  induction h with
  | nil => exact ⟨[], .nil, rfl, rfl, by simp, by simp⟩
  | cons first _ ih =>
    obtain ⟨es, hfirst, hes⟩ := first
    obtain ⟨ess, hess, hrest⟩ := ih
    exact ⟨es :: ess, .cons hes hess, hfirst.append hrest hr⟩

/-- What stands beside names that differ is a function of them. -/
theorem exists_rest {R : String → List Entry → Prop} {names : List String} {ess : List (List Entry)}
    (hnodup : names.Nodup) (h : names.Forall₂ R ess) :
    ∃ rest : String → List Entry, ess = names.map rest ∧ ∀ s ∈ names, R s (rest s) := by
  induction h with
  | nil => exact ⟨fun _ => [], rfl, by simp⟩
  | @cons s es names ess hfirst _ ih =>
    obtain ⟨hfresh, hnodup⟩ := List.nodup_cons.mp hnodup
    obtain ⟨rest, rfl, hrest⟩ := ih hnodup
    have hother : ∀ t ∈ names, Function.update rest s es t = rest t := by
      intro t ht
      rw [Function.update_of_ne]
      rintro rfl
      exact hfresh ht
    refine ⟨Function.update rest s es, ?_, ?_⟩
    · rw [List.map_cons, Function.update_self, List.map_congr_left hother]
    · refine List.forall_mem_cons.mpr ⟨by rwa [Function.update_self], fun t ht => ?_⟩
      rw [hother t ht]
      exact hrest t ht

/-- What is asked for below a directory that lies at `l`. -/
theorem Asked.below {w : Terrain} {l : Location} {n : Machine} {node : Node} {levels : Nat}
    {ess : List (List Entry)} (hw : w.Shown o mode I) (hn : I n)
    (hf : w.files.find w.cwd d = .ok (l, node))
    (hl : w.files.list w.cwd d = .ok (w.files.children l))
    (hlevels : FileTree.pathLimit ≤ d.text.utf8ByteSize + levels)
    (h : (Walk.below n d).Forall₂ (Asked o mode I levels) ess) :
    ∃ rest : String → List Entry, ess = (w.files.subdirectories l).map rest ∧
      ∀ s ∈ w.files.subdirectories l, w.Visits (s :: l) (d / s) (rest s) := by
  rw [Terrain.below_shown (hw.shows n hn) hl, List.forall₂_map_left_iff] at h
  have hnodup : (w.files.subdirectories l).Nodup :=
    (FileTree.subdirectories_sorted hw.files l).imp fun hlt => String.ne_of_lt hlt
  obtain ⟨rest, rfl, hrest⟩ := exists_rest hnodup h
  refine ⟨rest, rfl, fun s hs => ?_⟩
  obtain ⟨hname, hplace⟩ := Footing.at_below hw.files hf hs
  have hsize := d.size_join hname.whole hname.filled
  exact hrest s hs w (s :: l) hw hplace (by omega)

/-- A directory is handed over where the tree has a test in it: a terrain that is shown has one where
the machine that was looked at has. -/
theorem Entry.Sound.handed_iff {v : Option Verdict} {handed : Bool} {w : Terrain} {l : Location}
    (h : (Entry.worked d v handed).Sound o mode) (hw : w.Shown o mode I)
    (hlook : (Entry.heeded v).directive = .test → ∃ n, I n ∧
      (handed = true ↔ mode = .graph ∨ hasTests n o d mode = true))
    (hl : w.files.list w.cwd d = .ok (w.files.children l)) :
    handed = true ↔
      (Entry.heeded v).directive = .test ∧ (w.mode = .graph ∨ w.Eligible l d) := by
  have hiff : (Entry.heeded v).directive = .test →
      (handed = true ↔ w.mode = .graph ∨ w.Eligible l d) := by
    intro htest
    obtain ⟨n, hn, hiff⟩ := hlook htest
    rwa [← hw.options, ← hw.mode, Terrain.hasTests_iff (hw.shows n hn) hl] at hiff
  exact ⟨fun hh => ⟨h.2.1 hh, (hiff (h.2.1 hh)).mp hh⟩, fun hwhy => (hiff hwhy.1).mpr hwhy.2⟩

theorem visit_traced (hI : Lasts c mode whole I) (levels : Nat) (d : Path) :
    Traced c mode whole I (fun h => visit c o mode h levels d) fun _ counted deeds =>
      ∃ es, Journal o mode es counted deeds ∧ Asked o mode I levels d es := by
  induction levels generalizing d with
  | zero =>
    refine (reject_traced hI d).mono fun _ counted deeds hj => ⟨_, hj, ?_⟩
    intro w l hw _ hlong
    exact .refused (Footing.not_accessible_of_long hlong)
  | succ levels ih =>
    refine Traced.look (fun n hn => ?_) fun h m n hmn => by rw [hmn.below, hmn.isAccessible]
    simp only
    split
    · next ha =>
      refine (reject_traced hI d).mono fun _ counted deeds hj => ⟨_, hj, ?_⟩
      intro w l hw _ _
      refine .refused fun hacc => ?_
      simp [(Terrain.isAccessible_iff (hw.shows n hn)).mpr hacc] at ha
    · next ha =>
      have hacc : ∀ w : Terrain, w.Shown o mode I → w.Accessible d := fun w hw => by
        simpa [Terrain.isAccessible_iff (hw.shows n hn)] using ha
      split
      · next hb =>
        have hin : ¬Terrain.InBundle d := fun hin => by
          simp [Terrain.inSymbolBundle_iff.mpr hin] at hb
        refine Traced.bind hI (workOn_traced hI d) ?_
        rintro deeper _ _ ⟨v, handed, rfl, rfl, hsound, rfl, hlook⟩
        have hhanded := fun (w : Terrain) (l : Location) (hw : w.Shown o mode I) =>
          hsound.handed_iff (l := l) hw hlook
        split
        · next hgo =>
          rw [Bool.and_eq_true, Bool.not_eq_true'] at hgo
          refine Traced.bind hI (Traced.each hI fun child _ => ih child) ?_
          rintro _ _ _ hstrung
          obtain ⟨ess, hess, hjournal⟩ := Journal.strung hgo.2 hstrung
          refine Traced.pure ?_
          rw [WalkReport.add_nothing, List.append_nil]
          refine ⟨.worked d v handed :: ess.flatten, hjournal.cons hsound hgo.2, ?_⟩
          intro w l hw hat hlevels
          obtain ⟨l', dm, hf, hl⟩ := (hacc w hw).found
          obtain rfl := hat l' _ hf
          obtain ⟨rest, rfl, hrest⟩ := Asked.below hw hn hf hl (by omega) hess
          exact .descended (hacc w hw) hin (hhanded w l' hw hl) (hw.options ▸ hgo.2) hgo.1 hrest
        · next hstop =>
          refine Traced.pure ⟨[.worked d v handed], ?_, ?_⟩
          · exact ⟨rfl, by simp, by simpa using hsound, by simp⟩
          · intro w l hw hat hlevels
            obtain ⟨l', dm, hf, hl⟩ := (hacc w hw).found
            obtain rfl := hat l' _ hf
            refine .stayed (hacc w hw) hin (hhanded w l' hw hl) ?_
            rw [hw.options]
            cases hr : o.recurse with
            | false => exact .inl rfl
            | true => exact .inr (by simpa [hr] using hstop)
      · next hb =>
        have hin : Terrain.InBundle d := by simpa [Terrain.inSymbolBundle_iff] using hb
        exact Traced.pure ⟨[], ⟨rfl, rfl, by simp, by simp⟩, fun w l hw _ _ =>
          .bundled (hacc w hw) hin⟩

theorem Journal.nothing : Journal o mode [] {} [] := ⟨rfl, rfl, by simp, by simp⟩

theorem begin_traced (hI : Lasts c mode whole I) (root : Path) :
    Traced c mode whole I (fun h => Walk.begin c o mode h root) fun _ counted deeds =>
      ∃ es, Journal o mode es counted deeds ∧ ∀ (w : Terrain) (l : Location) (dm : Mode),
        w.Shown o mode I → w.files.findItself w.cwd root = .ok (l, .directory dm) →
        w.Visits l root es := by
  unfold Walk.begin
  refine Traced.look (fun n hn => ?_) fun h m n hmn => ?_
  · -- Nothing is asked of a root that is no directory.
    have hother : (∀ l dm, n.files.findItself n.directory root ≠ .ok (l, .directory dm)) →
        ∀ {es : List Entry} {counted deeds}, Journal o mode es counted deeds → ∃ es,
          Journal o mode es counted deeds ∧ ∀ (w : Terrain) (l : Location) (dm : Mode),
            w.Shown o mode I → w.files.findItself w.cwd root = .ok (l, .directory dm) →
            w.Visits l root es := by
      intro hne es counted deeds hjournal
      refine ⟨es, hjournal, fun w l dm hw hf => ?_⟩
      obtain ⟨node, hr, hnode⟩ := (hw.shows n hn).findItself_ok hf
      cases node <;> cases hnode
      exact absurd hr (hne l dm)
    cases hr : n.files.findItself n.directory root with
    | error f => exact (reject_traced hI root).mono fun _ _ _ => hother (by simp [hr])
    | ok found =>
      obtain ⟨l, node⟩ := found
      cases node with
      | directory dm =>
        refine (visit_traced hI _ root).mono ?_
        rintro _ counted deeds ⟨es, hjournal, hasked⟩
        refine ⟨es, hjournal, fun w l' dm' hw hf => hasked w l' hw ?_ ?_⟩
        · intro l'' node hf'
          rw [FileTree.find_of_findItself hf rfl] at hf'
          exact (Prod.mk.inj (Except.ok.inj hf')).1.symm
        · have hpos : 0 < root.text.utf8ByteSize :=
            Nat.pos_of_ne_zero fun h0 => FileTree.text_ne_of_checkPath (FileTree.findAt_ok hf).1
              (String.utf8ByteSize_eq_zero_iff.mp h0)
          omega
      | link target =>
        have hnone := @hother (by simp [hr])
        simp only
        split
        · exact (reject_traced hI root).mono fun _ _ _ => hnone
        · split
          · next hgo =>
            split
            · refine Traced.bind hI (Traced.each hI fun child _ => visit_traced hI _ child) ?_
              rintro _ _ _ hstrung
              obtain ⟨ess, -, hjournal⟩ := Journal.strung (Bool.and_eq_true_iff.mp hgo).1 hstrung
              refine Traced.pure ?_
              rw [WalkReport.add_nothing, List.append_nil]
              exact hnone hjournal
            · exact (reject_traced hI root).mono fun _ _ _ => hnone
          · exact Traced.pure (hnone .nothing)
      | file serial fm content => exact Traced.pure (hother (by simp [hr]) .nothing)
      | device room => exact Traced.pure (hother (by simp [hr]) .nothing)
  · have hroot := hmn.root root
    cases hm : m.files.findItself m.directory root with
    | error f =>
      cases hr : n.files.findItself n.directory root with
      | error f' => rfl
      | ok found =>
        rw [hm, hr] at hroot
        cases hroot
    | ok found =>
      cases hr : n.files.findItself n.directory root with
      | error f' =>
        rw [hm, hr] at hroot
        cases hroot
      | ok found' =>
        rw [hm, hr] at hroot
        obtain ⟨l, node⟩ := found
        obtain ⟨l', node'⟩ := found'
        simp only [hmn.isThere, hmn.isDirectory, hmn.list_isOk, hmn.below]
        cases node <;> cases node' <;> first | rfl | cases hroot

/-- What a walk tells the log before anything else. -/
def workingFrom (root : Path) : String := "[Working from directory " ++ root.text ++ "]"

/-- All that a walk with these entries does. -/
def course (root : Path) (es : List Entry) : List Deed :=
  .noted (workingFrom root) :: es.flatMap Entry.deeds

/-- The entries `es` of a walk that succeeds with the handler `whole`, from `n` to `n'`. -/
structure Walked (c : Context) (o : WalkOptions) (mode : RunMode) (whole : Handler)
    (I : Machine → Prop) (root : Path) (n : Machine) (report : WalkReport) (n' : Machine)
    (es : List Entry) : Prop where
  journal : Journal o mode es report (es.flatMap Entry.deeds)
  done : Deeds c mode whole (course root es) n n'
  asked : ∀ (w : Terrain) (l : Location) (dm : Mode), w.Shown o mode I →
    w.files.findItself w.cwd root = .ok (l, .directory dm) → w.Visits l root es
  /-- A walk that does the same, all of it or up to a deed that fails, ends as these deeds do. -/
  again : ∀ front S m failure m', LookAlike S →
    Again c mode front whole S (course root es) m n failure m' →
    (walk c o mode front root).on m = (resultOf failure report, m')

end Walk

theorem walk_walked {c : Context} {o : WalkOptions} {mode : RunMode} {whole : Handler}
    {I : Machine → Prop} {root : Path} {report : WalkReport} {n n' : Machine}
    (hI : Lasts c mode whole I) (hn : I n)
    (hrun : (walk c o mode whole root).on n = (.ok report, n')) :
    ∃ es, Walk.Walked c o mode whole I root n report n' es := by
  obtain ⟨_, n₁, hnote, hrest⟩ := Job.bind_ok hrun
  obtain ⟨⟨_, r⟩, n₂, hbegin, hend⟩ := Job.bind_ok hrest
  cases hend
  have hfirst : Deed.Done c mode whole (.noted (Walk.workingFrom root)) n n₁ := hnote
  obtain ⟨counted, deeds, hr, ⟨es, hjournal, hasked⟩, hdone, hagain⟩ :=
    Walk.begin_traced hI root {} n₁ () _ _ (hI _ _ _ hn hfirst) hbegin
  rw [WalkReport.nothing_add] at hr
  subst hr
  obtain rfl := hjournal.deeds
  refine ⟨es, hjournal, .cons hfirst hdone, hasked, ?_⟩
  intro front S m failure m' hS hall
  rw [walk, Job.on_bind]
  cases hall with
  | cons _ done first rest =>
    obtain rfl := first.unique hfirst
    rw [show (note ("[Working from directory " ++ root.text ++ "]")).on m = _ from done]
    have hleft := hagain front S _ failure m' hS rest
    cases failure with
    | none => exact Job.on_bind_ok hleft _
    | some e =>
      simp only
      rw [Job.on_bind, hleft]
      rfl
  | fails _ fails =>
    rw [show (note ("[Working from directory " ++ root.text ++ "]")).on m = _ from fails]
    rfl

end Regression
