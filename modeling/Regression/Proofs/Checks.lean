import Regression.Proofs.Exports
import Regression.Proofs.Forwarding
import Regression.Proofs.Trusting

namespace Regression

/-- An error of the files or of the log, or else a fatal one for which `V` holds. -/
def Error.Blames (V : Fatal → Machine → Prop) (m : Machine) : Error → Prop
  | .fatal cause => V cause m
  | .system _ => True
  | .logWrite _ _ => True
  | _ => False

section Clears

variable {α β : Type} {P : Machine → Prop} {V : Fatal → Machine → Prop}

/-- What a job comes to on machines as `P` says: to an answer and a machine as `post` says, or to an
error of the files or of the log, or else to a fatal one for which `V` holds. -/
structure Job.Clears (P : Machine → Prop) (V : Fatal → Machine → Prop) (j : Job α)
    (post : α → Machine → Prop) : Prop where
  ok : ∀ {m a m'}, P m → j.on m = (.ok a, m') → post a m'
  error : ∀ {m e m'}, P m → j.on m = (.error e, m') → e.Blames V m'

namespace Job.Clears

theorem pure {a : α} {post : α → Machine → Prop} (h : ∀ m, P m → post a m) :
    Job.Clears P V (pure a) post := by
  refine ⟨fun hm hrun => ?_, fun hm hrun => ?_⟩
  · cases hrun
    exact h _ hm
  · cases hrun

theorem throw {e : Error} {post : α → Machine → Prop} (h : ∀ m, P m → e.Blames V m) :
    Job.Clears P V (throw e : Job α) post := by
  refine ⟨fun hm hrun => ?_, fun hm hrun => ?_⟩
  · cases hrun
  · cases hrun
    exact h _ hm

theorem get : Job.Clears P V get fun seen m => P m ∧ seen = m := by
  refine ⟨fun hm hrun => ?_, fun hm hrun => ?_⟩
  · cases hrun
    exact ⟨hm, rfl⟩
  · cases hrun

theorem lift {e : Effect α} {post : α → Machine → Prop}
    (h : ∀ m, P m → post (e.on m).1 (e.on m).2) : Job.Clears P V (liftM e) post := by
  refine ⟨fun hm hrun => ?_, fun hm hrun => ?_⟩
  · cases hrun
    exact h _ hm
  · cases hrun

theorem stays {e : Effect α} (h : e.Stays P) : Job.Clears P V (liftM e) fun _ => P := lift h

theorem bind {j : Job α} {f : α → Job β} {mid : α → Machine → Prop} {post : β → Machine → Prop}
    (hj : Job.Clears P V j mid) (hf : ∀ a, Job.Clears (mid a) V (f a) post) :
    Job.Clears P V (j >>= f) post := by
  constructor
  · intro m b m' hm hrun
    obtain ⟨a, m₁, hfirst, hrest⟩ := Job.bind_ok hrun
    exact (hf a).ok (hj.ok hm hfirst) hrest
  · intro m e m' hm hrun
    rw [Job.on_bind] at hrun
    cases hfirst : j.on m with
    | mk result m₁ =>
      rw [hfirst] at hrun
      cases result with
      | ok a => exact (hf a).error (hj.ok hm hfirst) hrun
      | error e' =>
        cases hrun
        exact hj.error hm hfirst

theorem each {ρ : Type} {xs : List ρ} {f : ρ → Job α}
    (h : ∀ x ∈ xs, Job.Clears P V (f x) fun _ => P) :
    Job.Clears P V (forIn xs PUnit.unit fun x _ => f x >>= fun _ => Pure.pure (.yield PUnit.unit))
      fun _ => P := by
  induction xs with
  | nil => exact pure fun _ hm => hm
  | cons x xs ih =>
    rw [List.forIn_cons, bind_assoc]
    refine (h x List.mem_cons_self).bind fun _ => ?_
    rw [pure_bind]
    exact ih fun y hy => h y (List.mem_cons_of_mem x hy)

theorem whether {p : Prop} [Decidable p] {j : Job α} {rest : Job β} {post : β → Machine → Prop}
    (hj : Job.Clears P V j fun _ => P) (hr : Job.Clears P V rest post) :
    Job.Clears P V (if p then j >>= fun _ => rest else rest) post := by
  split
  · exact hj.bind fun _ => hr
  · exact hr

theorem either {p : Prop} [Decidable p] {j j' : Job α} {post : α → Machine → Prop}
    (hj : Job.Clears P V j post) (hj' : Job.Clears P V j' post) :
    Job.Clears P V (if p then j else j') post := by
  split
  · exact hj
  · exact hj'

/-- What is known of the answer alone is known whatever follows. -/
theorem knowing {j : Job α} {f : α → Job β} {fact : α → Prop} {mid : Machine → Prop}
    {post : β → Machine → Prop} (hj : Job.Clears P V j fun a m => mid m ∧ fact a)
    (hf : ∀ a, fact a → Job.Clears mid V (f a) post) : Job.Clears P V (j >>= f) post :=
  hj.bind fun a => ⟨fun hm => (hf a hm.2).ok hm.1, fun hm => (hf a hm.2).error hm.1⟩

theorem mono {j : Job α} {post weak : α → Machine → Prop} (h : Job.Clears P V j post)
    (hw : ∀ a m, post a m → weak a m) : Job.Clears P V j weak :=
  ⟨fun hm hrun => hw _ _ (h.ok hm hrun), h.error⟩

theorem before {j : Job α} {P' : Machine → Prop} {post : α → Machine → Prop}
    (h : Job.Clears P V j post) (hw : ∀ m, P' m → P m) : Job.Clears P' V j post :=
  ⟨fun hm => h.ok (hw _ hm), fun hm => h.error (hw _ hm)⟩

end Job.Clears

/-- What setup may tell its log and do to the files without taking it away from a machine. -/
structure Bearing (B : String → Prop) (R : Machine → Prop) : Prop extends
    Starting (fun _ => True) R where
  note : ∀ m text, B text → R m → R ((Regression.note text).on m).2
  edit : ∀ m files, R m →
    R { m with files, changes := { tool := none, before := m.files, after := files } :: m.changes }

namespace Bearing

variable {B : String → Prop} {R R' : Machine → Prop}

theorem and (h : Bearing B R) (h' : Bearing B R') : Bearing B fun m => R m ∧ R' m :=
  ⟨⟨fun m text hm => ⟨h.console m text hm.1, h'.console m text hm.2⟩,
      fun m text hm => ⟨h.diagnostics m text hm.1, h'.diagnostics m text hm.2⟩,
      fun m c hc hm => ⟨h.start m c hc hm.1, h'.start m c hc hm.2⟩⟩,
    fun m text ht hm => ⟨h.note m text ht hm.1, h'.note m text ht hm.2⟩,
    fun m files hm => ⟨h.edit m files hm.1, h'.edit m files hm.2⟩⟩

theorem congr (h : Bearing B R) (hiff : ∀ m, R m ↔ R' m) : Bearing B R' := by
  have hsame : R = R' := funext fun m => propext (hiff m)
  rwa [← hsame]

/-- Where less may be told. -/
theorem narrow {B' : String → Prop} (h : Bearing B R) (hB : ∀ text, B' text → B text) :
    Bearing B' R :=
  ⟨h.toStarting, fun m text ht hm => h.note m text (hB text ht) hm, h.edit⟩

theorem const (p : Prop) : Bearing B fun _ => p :=
  ⟨⟨fun _ _ h => h, fun _ _ h => h, fun _ _ _ h => h⟩, fun _ _ _ h => h, fun _ _ h => h⟩

theorem any {ι : Sort _} {R : ι → Machine → Prop} (h : ∀ i, Bearing B (R i)) :
    Bearing B fun m => ∃ i, R i m :=
  ⟨⟨fun m text hm => hm.imp fun i => (h i).console m text,
      fun m text hm => hm.imp fun i => (h i).diagnostics m text,
      fun m c hc hm => hm.imp fun i => (h i).start m c hc⟩,
    fun m text ht hm => hm.imp fun i => (h i).note m text ht,
    fun m files hm => hm.imp fun i => (h i).edit m files⟩

theorem all {ι : Sort _} {R : ι → Machine → Prop} (h : ∀ i, Bearing B (R i)) :
    Bearing B fun m => ∀ i, R i m :=
  ⟨⟨fun m text hm i => (h i).console m text (hm i),
      fun m text hm i => (h i).diagnostics m text (hm i),
      fun m c hc hm i => (h i).start m c hc (hm i)⟩,
    fun m text ht hm i => (h i).note m text ht (hm i),
    fun m files hm i => (h i).edit m files (hm i)⟩

theorem tell (h : Bearing B R) {text : String} (ht : B text) :
    Job.Clears R V (Regression.note text) fun _ => R := by
  refine ⟨fun hm hrun => ?_, fun hm hrun => ?_⟩
  · have hafter := h.note _ _ ht hm
    rwa [hrun] at hafter
  · obtain ⟨file, fault, rfl⟩ := (Relays.note text _).failure _ (congrArg Prod.fst hrun)
    trivial

theorem edits (h : Bearing B R) (change : FileTree → Location → Except Fault FileTree) :
    Job.Clears R V (Regression.edit change) fun _ => R := by
  unfold Regression.edit
  refine ⟨fun {m _ _} hm hrun => ?_, fun {m _ _} hm hrun => ?_⟩
  · rw [editOr_on] at hrun
    split at hrun
    · cases hrun
      exact h.edit _ _ hm
    · cases hrun
  · rw [editOr_on] at hrun
    split at hrun
    · cases hrun
    · cases hrun
      trivial

end Bearing

end Clears

/-- A message that begins otherwise than one that tells of an error, whatever follows. -/
def Plain (text : String) : Prop :=
  ¬"[Error".toList <+: text.toList ∧ ¬text.toList <+: "[Error".toList

namespace Plain

variable {text : String}

instance : Decidable (Plain text) := inferInstanceAs (Decidable (_ ∧ _))

theorem append (h : Plain text) (more : String) : Plain (text ++ more) := by
  rw [Plain, String.toList_append]
  refine ⟨fun hopens => ?_, fun hopens => h.2 ((List.prefix_append _ _).trans hopens)⟩
  exact (List.prefix_or_prefix_of_prefix hopens (List.prefix_append _ _)).elim h.1 h.2

/-- Nor does it when its end is cut. -/
theorem startsWith (h : Plain text) : Text.startsWith (Text.trimEnd text) "[Error" = false := by
  rw [Text.startsWith_trimEnd Text.error_unblank, Text.startsWith, Bool.eq_false_iff, Ne,
    List.isPrefixOf_iff_prefix]
  exact h.1

end Plain

namespace Setup

variable {α β : Type} {P : Context → Machine → Prop} {V : Fatal → Machine → Prop} {s : Setup}

/-- The same of a step of setup, by the context that it fills in besides. -/
def Clears (P : Context → Machine → Prop) (V : Fatal → Machine → Prop) (x : Arranging α)
    (post : α → Context → Machine → Prop) : Prop :=
  ∀ c, Job.Clears (P c) V (x.run c) fun r => post r.1 r.2

/-- A step that keeps what it is to begin with. -/
abbrev Holds (P : Context → Machine → Prop) (V : Fatal → Machine → Prop) (x : Arranging α) : Prop :=
  Clears P V x fun _ => P

namespace Clears

theorem pure {a : α} {post : α → Context → Machine → Prop} (h : ∀ c m, P c m → post a c m) :
    Clears P V (pure a) post :=
  fun c => Job.Clears.pure fun m hm => h c m hm

theorem given (a : α) : Holds P V (Pure.pure a) := pure fun _ _ h => h

theorem throw {e : Error} {post : α → Context → Machine → Prop}
    (h : ∀ c m, P c m → e.Blames V m) : Clears P V (throw e : Arranging α) post :=
  fun c => Job.Clears.throw fun m hm => h c m hm

theorem bind {x : Arranging α} {f : α → Arranging β} {mid : α → Context → Machine → Prop}
    {post : β → Context → Machine → Prop} (hx : Clears P V x mid)
    (hf : ∀ a, Clears (mid a) V (f a) post) : Clears P V (x >>= f) post := by
  intro c
  rw [StateT.run_bind]
  exact Job.Clears.bind (hx c) fun r => hf r.1 r.2

/-- What is known of the answer alone is known whatever follows. -/
theorem knowing {x : Arranging α} {f : α → Arranging β} {fact : α → Prop}
    {post : β → Context → Machine → Prop} (hx : Clears P V x fun a c m => P c m ∧ fact a)
    (hf : ∀ a, fact a → Clears P V (f a) post) : Clears P V (x >>= f) post :=
  bind hx fun a c => ⟨fun hm => (hf a hm.2 c).ok hm.1, fun hm => (hf a hm.2 c).error hm.1⟩

/-- After a step that keeps what it began with. -/
theorem after {x : Arranging α} {f : α → Arranging β} {post : β → Context → Machine → Prop}
    (hx : Holds P V x) (hf : ∀ a, Clears P V (f a) post) : Clears P V (x >>= f) post :=
  bind hx hf

theorem whether {p : Prop} [Decidable p] {x : Arranging α} {rest : Arranging β}
    {post : β → Context → Machine → Prop} (hx : Holds P V x) (hr : Clears P V rest post) :
    Clears P V (if p then x >>= fun _ => rest else rest) post := by
  split
  · exact after hx fun _ => hr
  · exact hr

theorem either {p : Prop} [Decidable p] {x x' : Arranging α}
    {post : α → Context → Machine → Prop} (hx : Clears P V x post) (hx' : Clears P V x' post) :
    Clears P V (if p then x else x') post := by
  split
  · exact hx
  · exact hx'

theorem mono {x : Arranging α} {post weak : α → Context → Machine → Prop} (h : Clears P V x post)
    (hw : ∀ a c m, post a c m → weak a c m) : Clears P V x weak :=
  fun c => (h c).mono fun r m hr => hw r.1 r.2 m hr

theorem before {x : Arranging α} {P' : Context → Machine → Prop}
    {post : α → Context → Machine → Prop} (h : Clears P V x post)
    (hw : ∀ c m, P' c m → P c m) : Clears P' V x post :=
  fun c => (h c).before fun m hm => hw c m hm

theorem map {x : Arranging α} {f : α → β} (hx : Holds P V x) : Holds P V (f <$> x) := by
  rw [map_eq_pure_bind]
  exact after hx fun _ => given _

theorem lift {j : Job α} {post : α → Context → Machine → Prop}
    (h : ∀ c, Job.Clears (P c) V j fun a => post a c) : Clears P V (liftM j : Arranging α) post :=
  fun c => Job.Clears.bind (h c) fun _ => Job.Clears.pure fun _ hm => hm

theorem get : Clears P V get fun seen c m => P c m ∧ seen = c :=
  fun _ => Job.Clears.pure fun _ hm => ⟨hm, rfl⟩

/-- Where it does not matter what the context is. -/
theorem context : Holds P V MonadState.get := get.mono fun _ _ _ h => h.1

theorem modify {f : Context → Context} {P' : Context → Machine → Prop}
    (h : ∀ c m, P c m → P' (f c) m) : Clears P V (modify f) fun _ => P' :=
  fun c => Job.Clears.pure fun m hm => h c m hm

theorem machine : Clears P V (getThe Machine) fun seen c m => P c m ∧ seen = m :=
  lift fun _ => Job.Clears.get

theorem world : Holds P V (getThe Machine) := machine.mono fun _ _ _ h => h.1

theorem bound (name : String) : Holds P V (bound? name) := context.after fun _ => given _

theorem filled (name : String) : Holds P V (filled name) := context.after fun _ => given _

end Clears

/-- What no step of setup that tells its log as `B` allows takes away, from the context or from the
machine. -/
structure Enduring (B : String → Prop) (P : Context → Machine → Prop) : Prop where
  bears : ∀ c, Bearing B (P c)
  set : ∀ c m name value, P c m → P (c.set name value) m

namespace Enduring

variable {B : String → Prop} {P' : Context → Machine → Prop}

theorem narrow {B' : String → Prop} (h : Enduring B P) (hB : ∀ text, B' text → B text) :
    Enduring B' P :=
  ⟨fun c => (h.bears c).narrow hB, h.set⟩

theorem of_bearing {R : Machine → Prop} (h : Bearing B R) : Enduring B fun _ => R :=
  ⟨fun _ => h, fun _ _ _ _ hm => hm⟩

theorem and (h : Enduring B P) (h' : Enduring B P') : Enduring B fun c m => P c m ∧ P' c m :=
  ⟨fun c => (h.bears c).and (h'.bears c),
    fun c m name value hm => ⟨h.set c m name value hm.1, h'.set c m name value hm.2⟩⟩

theorem note (h : Enduring B P) {text : String} (ht : B text) :
    Holds P V (liftM (Regression.note text)) :=
  Clears.lift fun c => (h.bears c).tell ht

/-- A message that shows something. -/
theorem remark (h : Enduring Plain P) {head : String} (hhead : Plain head) (shown tail : String) :
    Holds P V (liftM (Regression.note (head ++ shown ++ tail))) :=
  h.note (.append (.append hhead shown) tail)

theorem say (h : Enduring B P) (line : String) :
    Holds P V (liftM (liftM (Regression.say line) : Job Unit)) :=
  Clears.lift fun c => Job.Clears.stays ((h.bears c).say line)

theorem provide (h : Enduring B P) (name value : String) : Holds P V (Setup.provide name value) :=
  Clears.modify fun c m hm => h.set c m name value hm

theorem removeFile (h : Enduring B P) (p : Path) :
    Holds P V (liftM (Regression.removeFile p)) :=
  Clears.lift fun c => (h.bears c).edits _

theorem asks (h : Enduring B P) (d : Command) :
    Holds P V (liftM (liftM (attempt d.captureQuiet) : Job (Option String))) :=
  Clears.lift fun c => Job.Clears.stays ((h.bears c).captureQuiet trivial)

theorem git (h : Enduring B P) (cwd : Path) (arguments : List String) :
    Holds P V (Setup.git cwd arguments) :=
  Clears.context.after fun _ => (h.asks _).after fun _ => Clears.given _

theorem firstLineOf (h : Enduring B P) (program : String) (arguments : List String) :
    Holds P V (Setup.firstLineOf program arguments) :=
  Clears.context.after fun _ => (h.asks _).after fun _ => Clears.given _

theorem optionVariables (h : Enduring Plain P) : Holds P V s.optionVariables := by
  unfold Setup.optionVariables
  extract_lets o leaksLog last trials timeout stdin compOnly leaks
  clear_value leaksLog
  have hlast : ∀ u, Holds P V (last u) := fun _ => Clears.given _
  have htrials : ∀ u, Holds P V (trials u) := by
    intro u
    refine (h.provide _ _).after fun _ => ?_
    split
    · exact (h.provide _ _).after hlast
    · exact hlast ()
  have htimeout : ∀ u, Holds P V (timeout u) := by
    intro u
    simp only [timeout]
    split
    · exact (h.provide _ _).after htrials
    · exact htrials ()
  have hstdin : ∀ u, Holds P V (stdin u) := by
    intro u
    simp only [stdin]
    split
    · refine (h.provide _ _).after fun _ => ?_
      split
      · exact (h.provide _ _).after htimeout
      · exact htimeout ()
    · exact htimeout ()
  have hcompOnly : ∀ u, Holds P V (compOnly u) := fun u =>
    Clears.whether (h.provide _ _) (hstdin u)
  have hleaks : ∀ u, Holds P V (leaks u) := by
    intro u
    simp only [leaks]
    split
    · refine Clears.world.after fun m => ?_
      split
      · refine (h.remark (by decide) _ _).after fun _ => ?_
        exact (h.removeFile _).after hcompOnly
      · exact hcompOnly ()
    · exact hcompOnly ()
  exact Clears.whether (h.provide _ _) (hleaks ())

theorem performanceFlags (h : Enduring Plain P) : Holds P V s.performanceFlags := by
  unfold Setup.performanceFlags
  extract_lets o trials compPerformance label
  have htrials : ∀ u, Holds P V (trials u) := by
    intro u
    refine (h.remark (by decide) _ _).after fun _ => ?_
    refine (h.remark (by decide) _ _).after fun _ => ?_
    refine Clears.either ?_ (Clears.given _)
    refine (h.remark (by decide) _ _).after fun _ => ?_
    exact h.remark (by decide) _ _
  have hcomp : ∀ u, Holds P V (compPerformance u) := fun u =>
    (h.remark (by decide) _ _).after fun _ =>
      Clears.whether (h.provide _ _) (htrials u)
  have hlabel : ∀ u, Holds P V (label u) := fun _ => (h.provide _ _).after hcomp
  refine (h.remark (by decide) _ _).after fun _ => ?_
  split
  · refine (h.provide _ _).after fun _ => ?_
    split
    · exact (h.remark (by decide) _ _).after hlabel
    · exact hlabel ()
  · exact hcomp ()

theorem configuration (h : Enduring Plain P) : Holds P V s.configuration := by
  unfold Setup.configuration
  refine (h.remark (by decide) _ _).after fun _ => ?_
  refine (h.provide _ _).after fun _ => ?_
  refine (h.provide _ _).after fun _ => ?_
  refine (h.provide _ _).after fun _ => ?_
  refine (h.remark (by decide) _ _).after fun _ => ?_
  refine (h.provide _ _).after fun _ => ?_
  refine (h.remark (by decide) _ _).after fun _ => ?_
  refine (h.provide _ _).after fun _ => ?_
  refine (h.provide _ _).after fun _ => ?_
  exact h.provide _ _

theorem launching (h : Enduring B P) (launcher : String) :
    Holds P V (Setup.launching launcher) := by
  unfold Setup.launching
  extract_lets queued timeout
  have hqueued : ∀ u, Holds P V (queued u) := fun _ =>
    Clears.either (h.provide _ _) (Clears.given _)
  have htimeout : ∀ u, Holds P V (timeout u) := by
    intro u
    refine (Clears.filled _).after fun set => ?_
    refine (Clears.filled _).after fun unwanted => ?_
    exact Clears.either (Clears.whether (h.provide _ _) (hqueued u)) (Clears.given _)
  refine (Clears.filled _).after fun redirected => ?_
  refine (Clears.filled _).after fun forced => ?_
  split
  · refine (h.say _).after fun _ => ?_
    exact (h.provide _ _).after htimeout
  · exact htimeout ()

theorem locales (h : Enduring Plain P) : Holds P V s.locales := by
  unfold Setup.locales
  extract_lets o comm count multilocale most
  have hmultilocale : ∀ u, Holds P V (multilocale u) := fun _ =>
    Clears.either (Clears.either (h.provide _ _) (h.note (by decide))) (Clears.given _)
  have hmost : ∀ u, Holds P V (most u) := by
    intro u
    refine (h.provide _ _).after fun _ => ?_
    split
    · exact (h.note (by decide)).after hmultilocale
    · refine (h.remark (by decide) _ _).after fun _ => ?_
      exact (h.provide _ _).after hmultilocale
  split
  · exact (h.note (by decide)).after hmost
  · exact (h.remark (by decide) _ _).after hmost

theorem perfTestName (h : Enduring B P) : Holds P V Setup.perfTestName := by
  unfold Setup.perfTestName
  refine (Clears.bound _).after fun name => ?_
  split
  · exact Clears.given _
  · refine Clears.context.after fun c => ?_
    split
    · exact Clears.given _
    · exact (h.firstLineOf _ _).after fun _ => Clears.given _

theorem planGraphs (h : Enduring Plain P) : Holds P V s.planGraphs := by
  unfold Setup.planGraphs
  refine h.perfTestName.after fun name => ?_
  refine Clears.context.after fun c => ?_
  extract_lets description rest directory
  have hrest : ∀ perfDirectory, Holds P V (rest perfDirectory) := fun _ =>
    Clears.whether (h.provide _ _) (Clears.given _)
  split
  · exact (Clears.given _).after hrest
  · refine (h.provide _ _).after fun _ => ?_
    refine (h.remark (.append (by decide) _) _ _).after fun _ => ?_
    exact (Clears.given _).after hrest

theorem startTimings (h : Enduring B P) (tmp datDirectory : Path) (testName : String) :
    Holds P V (liftM (CompilerPerf.start tmp datDirectory testName)) := by
  refine Clears.lift fun c => ?_
  unfold CompilerPerf.start
  extract_lets tempDatDirectory last
  have hlast : ∀ u, Job.Clears (P c) V (last u) fun _ => P c := fun _ =>
    Job.Clears.get.bind fun _ => Job.Clears.pure fun _ hm => hm.1
  have hget : Job.Clears (P c) V MonadState.get fun _ => P c :=
    Job.Clears.get.mono fun _ _ hm => hm.1
  refine hget.bind fun m => ?_
  split
  · exact ((h.bears c).edits _).bind hlast
  · exact hlast ()

theorem planCompiler (h : Enduring Plain P) : Holds P V s.planCompiler := by
  unfold Setup.planCompiler
  refine h.perfTestName.after fun name => ?_
  refine (Clears.bound _).after fun directory => ?_
  extract_lets rest default
  have hrest : ∀ datDirectory, Holds P V (rest datDirectory) := fun _ =>
    Clears.context.after fun _ => (h.startTimings _ _ _).after fun _ =>
      (h.provide _ _).after fun _ => Clears.given _
  split
  · exact (Clears.given _).after hrest
  · refine (h.remark (.append (by decide) _) _ _).after fun _ => ?_
    exact (Clears.given _).after hrest

theorem recordCommit (h : Enduring B P) (hB : ∀ text, B text) (c : Context) (directory : Path)
    (commit : Option String) :
    Holds P V (liftM (Regression.recordCommit c directory commit)) := by
  refine Clears.lift fun c' => ?_
  unfold Regression.recordCommit
  refine ((h.bears c').edits _).bind fun _ => ?_
  refine ((h.bears c').edits _).bind fun _ => ?_
  refine ((h.bears c').edits _).bind fun _ => ?_
  refine ((h.bears c').tell (hB _)).bind fun _ => ?_
  refine (Job.Clears.stays ((h.bears c').capture trivial)).bind fun output => ?_
  split <;> exact (h.bears c').tell (hB _)

/-- The last step of setup raises no fatal error. What it may tell besides plain messages is how the
commit was taken down. -/
theorem performanceDirectories (h : Enduring Plain P)
    (hrecord : ∀ c directory commit,
      Holds P V (liftM (Regression.recordCommit c directory commit))) :
    Holds P V s.performanceDirectories := by
  unfold Setup.performanceDirectories
  extract_lets o withGraphs
  have hwith : ∀ graphs, Holds P V (withGraphs graphs) := by
    intro graphs
    simp -zeta only [withGraphs]
    extract_lets withCompiler
    have hcompiler : ∀ compiler, Holds P V (withCompiler compiler) := by
      intro compiler
      simp only [withCompiler]
      split
      · refine (h.git _ _).after fun commit => ?_
        refine Clears.context.after fun c => ?_
        exact (hrecord _ _ _).after fun _ => Clears.given _
      · exact Clears.given _
    split
    · exact (Clears.map h.planCompiler).after hcompiler
    · exact (Clears.given _).after hcompiler
  split
  · exact (Clears.map h.planGraphs).after hwith
  · exact (Clears.given _).after hwith

end Enduring

end Setup

end Regression
