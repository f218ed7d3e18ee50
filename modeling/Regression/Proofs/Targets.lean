import Regression.Proofs.Resolving
import Regression.Proofs.Verdicts
import Regression.Proofs.Visits
import Regression.Target

namespace Regression

namespace Path

variable {p q cwd : Path} {s : String} {ps qs : List String}

/-- Pieces that spell one route: they differ in pieces that are no step, and in names that are left
again by the step after them. -/
inductive Respelt : List String → List String → Prop where
  | refl (ps : List String) : Respelt ps ps
  | symm {ps qs : List String} (h : Respelt ps qs) : Respelt qs ps
  | trans {ps qs rs : List String} (h : Respelt ps qs) (h' : Respelt qs rs) : Respelt ps rs
  | idle (front back : List String) {s : String} (h : isIdle s = true) :
    Respelt (front ++ s :: back) (front ++ back)
  | detour (front back : List String) {s : String} (h : IsName s) :
    Respelt (front ++ s :: ".." :: back) (front ++ back)

/-- Two spellings of one route, both from the root or both from where one is. -/
structure Alike (p q : Path) : Prop where
  start : p.isAbsolute = q.isAbsolute
  pieces : Respelt p.pieces q.pieces

theorem foldl_settle_respelt (h : Respelt ps qs) (taken : List Component) :
    (routeOf ps).foldl settle taken = (routeOf qs).foldl settle taken := by
  induction h with
  | refl ps => rfl
  | symm h ih => exact ih.symm
  | trans h h' ih ih' => exact ih.trans ih'
  | idle front back h => rw [routeOf_append, routeOf_append, routeOf_idle h]
  | @detour front back s h =>
    have hsteps : ∀ c ∈ [Component.name s, .up], IsStep c :=
      List.forall_mem_cons.mpr ⟨h, List.forall_mem_singleton.mpr trivial⟩
    have hround : routeOf [s, ".."] = [.name s, .up] := routeOf_texts hsteps
    have hcut : routeOf (s :: ".." :: back) = [.name s, .up] ++ routeOf back := by
      rw [← hround]
      exact routeOf_append [s, ".."] back
    rw [routeOf_append, routeOf_append, hcut, List.foldl_append, List.foldl_append,
      List.foldl_append]
    rfl

theorem join_of_absolute (h : (Path.mk s).isAbsolute = true) : p / s = ⟨s⟩ := if_pos h

theorem route_join (hp : p.text ≠ "") (hs : (Path.mk s).isAbsolute = false) :
    (p / s).route = p.route ++ (Path.mk s).route := by
  obtain ⟨cs, hj, ht⟩ := join_text hp hs
  have hleft : p.route = routeOf ((cs.splitOn '/').map String.ofList) := by
    rw [route, pieces, ht]
    split
    · rw [List.splitOn_append_cons_self, List.map_append, routeOf_append]
      simp [routeOf, isIdle]
    · rfl
  rw [hleft, route, pieces, hj, List.splitOn_append_cons_self, List.map_append, routeOf_append]
  rfl

theorem settled_join (hp : p.text ≠ "") (hs : (Path.mk s).isAbsolute = false) :
    (p / s).settled = (Path.mk s).route.foldl settle p.settled := by
  rw [settled_eq, join_isAbsolute hp hs, route_join hp hs, List.foldl_append, ← settled_eq]

/-- Spellings of one route make one path without detours. -/
theorem normalize_alike (hcwd : cwd.text ≠ "") (h : Alike p q) :
    (cwd / p.text).normalize = (cwd / q.text).normalize := by
  have hsettled : (cwd / p.text).settled = (cwd / q.text).settled := by
    have hroute := foldl_settle_respelt h.pieces
    cases hp : p.isAbsolute with
    | true =>
      have hq : q.isAbsolute = true := h.start ▸ hp
      rw [join_of_absolute hp, join_of_absolute hq, settled_eq, settled_eq, hp, hq]
      exact hroute _
    | false =>
      have hq : q.isAbsolute = false := h.start ▸ hp
      rw [settled_join hcwd hp, settled_join hcwd hq]
      exact hroute _
  rw [normalize, normalize]
  exact congrArg (fun taken : List Component => ofComponents taken.reverse) hsettled

theorem isAbsolute_joined (h : cwd.isAbsolute = true) (s : String) :
    (cwd / s).isAbsolute = true := by
  cases hs : (Path.mk s).isAbsolute with
  | true => rw [join_of_absolute hs, hs]
  | false => rw [join_isAbsolute (text_ne_of_absolute h) hs, h]

/-- A place below the root has a name, in a parent that is the place above it. -/
theorem path_below {l : Location} (hl : ∀ s ∈ l, IsName s) (hs : IsName s) :
    (Location.path (s :: l)).fileName = some s ∧
      (Location.path (s :: l)).parent = some (Location.path l) ∧
      Location.path (s :: l) = Location.path l / s := by
  have hplain : ∀ s ∈ l.reverse, IsPlain s := fun s hs =>
    isPlain_of_isName (hl s (List.mem_reverse.mp hs))
  have hpath : ∀ l : Location, Location.path l = Start.root.path l.reverse := fun _ => rfl
  rw [hpath, hpath, List.reverse_cons]
  have hroot : Start.root ≠ .current := nofun
  exact ⟨fileName_path hroot hplain hs, parent_path hroot hplain (isPlain_of_isName hs),
    (path_join hroot hplain (isPlain_of_isName hs)).symm⟩

end Path

namespace Skip

variable {p above : Path} {name : String}

/-- The markers beside a directory are looked for, under its name in its parent. -/
structure LooksBeside (p above : Path) (name : String) : Prop where
  fileName : p.fileName = some name
  parent : p.parent = some above
  path : p = above / name
  notest : ∀ c m, ((evaluate c p).on m).1.directive = .prune .notestSibling ↔
    m.isFile (above / (name ++ ".notest")) = true
  skipif : ∀ c m, m.isFile (above / (name ++ ".notest")) = false →
    m.isFile (above / (name ++ ".skipif")) = true → m.isExecutable (helper c) = true →
    question c p (above / (name ++ ".skipif")) ∈ ((evaluate c p).on m).2.started

theorem sibling_eq (hname : p.fileName = some name) (hparent : p.parent = some above)
    (ending : String) : sibling? p ending = some (above / (name ++ "." ++ ending)) := by
  simp [sibling?, hname, hparent]

theorem looksBeside (hname : p.fileName = some name) (hparent : p.parent = some above)
    (hpath : p = above / name) : LooksBeside p above name := by
  have hnotest : sibling? p "notest" = some (above / (name ++ ".notest")) := by
    rw [sibling_eq hname hparent, String.append_assoc]
    rfl
  have hskipif : sibling? p "skipif" = some (above / (name ++ ".skipif")) := by
    rw [sibling_eq hname hparent, String.append_assoc]
    rfl
  have hmarked : ∀ m, marked p m = m.isFile (above / (name ++ ".notest")) := by
    intro m
    rw [marked, hnotest]
    rfl
  refine ⟨hname, hparent, hpath, fun c m => ?_, fun c m hbare hfile hhelper => ?_⟩
  · rw [(evaluate_chooses c p m).notestSibling, hmarked]
  · have hfilter : (sibling? p "skipif").filter m.isFile =
        some (above / (name ++ ".skipif")) := by
      rw [hskipif]
      simp [hfile]
    have hasked : allAsked c p m = question c p (above / (name ++ ".skipif")) ::
        if (beside c p m).skips then [] else insideAsked c p m := by
      rw [allAsked, hmarked, hbare, besideAsked, (reply_asked hfilter hhelper).2]
      rfl
    rw [(evaluate_asks c p m).started, hasked]
    exact List.mem_append_right _ List.mem_cons_self

end Skip

namespace Target

open Regression.Path (place descend extend)

variable {cwd : Path}

def path : Target → Path
  | file p => p
  | directory p => p

/-- Where an argument is looked up. -/
def lookedUp (cwd argument : Path) : Path := (cwd / argument.text).normalize

theorem path_of_classify {m : Machine} {argument : Path} {target : Target}
    (h : classify m argument cwd = some target) : target.path = lookedUp cwd argument := by
  unfold classify at h
  dsimp only at h
  split at h
  · cases h
    rfl
  · split at h
    · cases h
      rfl
    · cases h

/-- What is so of the arguments of a session that starts in a directory. -/
structure Settles (cwd : Path) : Prop where
  path : ∀ m argument target, classify m argument cwd = some target →
    target.path = lookedUp cwd argument
  absolute : ∀ argument, (lookedUp cwd argument).isAbsolute = true
  plain : ∀ argument, ∀ c ∈ (lookedUp cwd argument).components, c ≠ .current ∧ c ≠ .up
  /-- The components go on a stack from left to right, on which a step up stays at the root. -/
  stack : ∀ argument, lookedUp cwd argument =
    Location.path ((cwd / argument.text).components.foldl descend [])
  /-- Any path is built up without its detours, each step going by the last component so far. -/
  built : ∀ p : Path, p.components.foldl extend ⟨""⟩ = p.normalize
  again : ∀ p : Path, p.normalize.normalize = p.normalize
  leading : ∀ p : Path, ∃ (ups : Nat) (names : List String), (∀ s ∈ names, IsName s) ∧
    p.normalize.components =
      (if p.isAbsolute then [.root] else List.replicate ups .up) ++ names.map .name
  resolves : ∀ (t : FileTree) (base : Location) argument found, t.Unlinked →
    t.find base (cwd / argument.text) = .ok found → t.find base (lookedUp cwd argument) = .ok found
  beside : ∀ m argument p, classify m argument cwd = some (.directory p) → p ≠ ⟨"/"⟩ →
    ∃ above name, Skip.LooksBeside p above name
  alike : ∀ m argument argument', Path.Alike argument argument' →
    classify m argument cwd = classify m argument' cwd

/-- An argument is looked up at an absolute path without detours, and spellings of one route are one
target. -/
theorem classify_settles (h : cwd.isAbsolute = true) : Settles cwd := by
  have hlookedUp : ∀ argument, lookedUp cwd argument = Location.path (place (cwd / argument.text)) :=
    fun argument => Path.normalize_of_absolute (Path.isAbsolute_joined h argument.text)
  constructor
  case path => exact fun m argument target => path_of_classify
  case absolute =>
    intro argument
    rw [hlookedUp]
    simp [Location.path, Path.isAbsolute]
  case plain =>
    intro argument c hc
    obtain ⟨ups, names, -, hnames⟩ := Path.components_split (cwd / argument.text)
    rw [if_pos (Path.isAbsolute_joined h argument.text)] at hnames
    rw [lookedUp, hnames, List.singleton_append] at hc
    rcases List.mem_cons.mp hc with rfl | hc
    · simp
    · obtain ⟨s, -, rfl⟩ := List.mem_map.mp hc
      simp
  case stack => exact hlookedUp
  case built => exact Path.foldl_extend
  case again => exact Path.normalize_again
  case leading => exact Path.components_split
  case resolves =>
    rintro t base argument ⟨l, n⟩ hu hfind
    exact (FileTree.find_normalize hu (Path.isAbsolute_joined h argument.text) hfind).2
  case beside =>
    intro m argument p hclassify hroot
    have hp : p = Location.path (place (cwd / argument.text)) :=
      (path_of_classify hclassify).trans (hlookedUp argument)
    have hnames : ∀ s ∈ place (cwd / argument.text), IsName s := fun s hs =>
      Path.isName_of_mem_place hs
    cases hplace : place (cwd / argument.text) with
    | nil => exact absurd (hp.trans (congrArg Location.path hplace)) hroot
    | cons s l =>
      rw [hplace] at hp hnames
      obtain ⟨hs, hl⟩ := List.forall_mem_cons.mp hnames
      obtain ⟨hname, hparent, hjoin⟩ := Path.path_below hl hs
      rw [hp]
      exact ⟨_, _, Skip.looksBeside hname hparent hjoin⟩
  case alike =>
    intro m argument argument' halike
    have hsame : lookedUp cwd argument = lookedUp cwd argument' :=
      Path.normalize_alike (Path.text_ne_of_absolute h) halike
    rw [lookedUp, lookedUp] at hsame
    rw [classify, classify, hsame]

end Target

namespace Grove

/-- From the directory of the grove, by a way round. -/
theorem classify_settles_grove : (Path.mk "/t").isAbsolute = true ∧
    Target.classify machine ⟨"./s//../../t/s/"⟩ ⟨"/t"⟩ = Target.classify machine ⟨"../t/s"⟩ ⟨"/t"⟩ ∧
    Target.classify machine ⟨"../t/s"⟩ ⟨"/t"⟩ = some (.directory ⟨"/t/s"⟩) ∧
    ∃ above name, Skip.LooksBeside ⟨"/t/s"⟩ above name := by
  have hrooted : (Path.mk "/t").isAbsolute = true := by decide
  have hsettles := Target.classify_settles hrooted
  have hfound : Target.classify machine ⟨"../t/s"⟩ ⟨"/t"⟩ = some (.directory ⟨"/t/s"⟩) := by
    decide +kernel
  have halike : Path.Alike ⟨"./s//../../t/s/"⟩ ⟨"../t/s"⟩ := by
    refine ⟨by decide, ?_⟩
    have hpieces : (Path.mk "./s//../../t/s/").pieces = [".", "s", "", "..", "..", "t", "s", ""] := by
      decide
    have hpieces' : (Path.mk "../t/s").pieces = ["..", "t", "s"] := by decide
    rw [hpieces, hpieces']
    have hdot : Path.Respelt [".", "s", "", "..", "..", "t", "s", ""]
        ["s", "", "..", "..", "t", "s", ""] := .idle [] _ (by decide)
    have hdouble : Path.Respelt ["s", "", "..", "..", "t", "s", ""]
        ["s", "..", "..", "t", "s", ""] := .idle ["s"] _ (by decide)
    have hround : Path.Respelt ["s", "..", "..", "t", "s", ""] ["..", "t", "s", ""] :=
      .detour [] _ (by decide)
    have hend : Path.Respelt ["..", "t", "s", ""] ["..", "t", "s"] :=
      .idle ["..", "t", "s"] [] (by decide)
    exact ((hdot.trans hdouble).trans hround).trans hend
  exact ⟨hrooted, hsettles.alike machine _ _ halike, hfound,
    hsettles.beside machine _ _ hfound (by decide)⟩

end Grove

end Regression
