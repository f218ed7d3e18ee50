import Regression.Proofs.Names
import Regression.Proofs.Unlinked

namespace Regression

open FileTree (linkLimit)

/-- An ending that makes a name of any text it is added to. -/
structure Path.IsEnding (e : String) : Prop where
  whole : '/' ∉ e.toList
  long : 3 ≤ e.length

namespace Path.IsEnding

variable {e : String} (he : IsEnding e) (text : String)
include he

theorem ne_short (w : String) {short : String} (hs : short.length < 3) : w ++ e ≠ short := by
  intro h
  have hlong := he.long
  rw [← h, String.length_append] at hs
  omega

theorem endsInSeparator : (Path.mk (text ++ e)).endsInSeparator = false := by
  have hne : e.toList ≠ [] := by
    intro h
    have hlong := he.long
    rw [← String.length_toList, h] at hlong
    cases hlong
  have hlast : e.toList.getLast hne ≠ '/' := fun h => he.whole (h ▸ List.getLast_mem hne)
  rw [Path.endsInSeparator, String.toList_append, List.getLast?_append,
    List.getLast?_eq_some_getLast hne]
  simpa using hlast

theorem origin (cwd : Location) : (Path.mk (text ++ e)).origin cwd = (Path.mk text).origin cwd := by
  have habsolute : (Path.mk (text ++ e)).isAbsolute = (Path.mk text).isAbsolute := by
    unfold isAbsolute
    rw [String.toList_append, List.head?_append]
    cases htext : text.toList.head? with
    | some c => rfl
    | none => exact head_ne_separator he.whole
  rw [Path.origin, Path.origin, habsolute]

end Path.IsEnding

namespace FileTree

variable {t t' : FileTree} {cwd d l l' l₀ q : Location} {text w e : String} {front : List String}
  {dm : Mode} {p : Path}

/-- An ending adds to the last step of a path alone. -/
theorem steps_ending (text : String) : ∃ front w, ∀ e, Path.IsEnding e →
    steps ⟨text ++ e⟩ = front ++ [w ++ e] := by
  obtain ⟨front, w, hsplit⟩ := Path.splitOn_ending text.toList
  refine ⟨(front.map String.ofList).filter (· != ""), String.ofList w, fun e he => ?_⟩
  have hpieces : (Path.mk (text ++ e)).pieces = front.map String.ofList ++ [String.ofList w ++ e] := by
    simp [Path.pieces, hsplit _ he.whole, String.ofList_append]
  have hlast : String.ofList w ++ e ≠ "" := he.ne_short _ (by decide)
  rw [steps_eq, if_neg (by rw [he.endsInSeparator]; exact Bool.false_ne_true), Path.names, hpieces,
    List.filter_append]
  simp [hlast]

/-- Whether a directory with these permissions lets such a name be looked up. -/
def admits (dm : Mode) (s : String) : Except Fault Unit :=
  if !dm.ownerRuns then .error .denied
  else if s.utf8ByteSize > nameLimit then .error .nameTooLong
  else .ok ()

/-- The last step of a route, where it meets no link that it follows. -/
theorem travel_last (hd : t.node? d = some (.directory dm)) (he : Path.IsEnding e) {follow : Bool}
    (hlink : ∀ target, t.node? ((w ++ e) :: d) = some (.link target) → follow = false)
    (left : Nat) : t.travel follow left d [w ++ e] =
      (admits dm (w ++ e)).map fun _ => ((w ++ e) :: d, (t.node? ((w ++ e) :: d)).isSome) := by
  rw [travel_eq]
  simp only [reach, hd, he.ne_short w (by decide : "".length < 3),
    he.ne_short w (by decide : ".".length < 3), he.ne_short w (by decide : "..".length < 3), admits]
  cases dm.ownerRuns with
  | false => rfl
  | true =>
    by_cases hlong : (w ++ e).utf8ByteSize > nameLimit
    · simp only [Bool.not_true, Bool.false_eq_true, ↓reduceIte, if_pos hlong]
      rfl
    · simp only [Bool.not_true, Bool.false_eq_true, ↓reduceIte, if_neg hlong]
      cases hn : t.node? ((w ++ e) :: d) with
      | none => rfl
      | some n =>
        cases n with
        | link target =>
          rw [hlink target hn]
          rfl
        | _ => rfl

/-- Where a name is not let through, a link under it is not followed either. -/
theorem travel_refused (hd : t.node? d = some (.directory dm)) (he : Path.IsEnding e) {f : Fault}
    (hf : admits dm (w ++ e) = .error f) (follow : Bool) (left : Nat) :
    t.travel follow left d [w ++ e] = .error f := by
  rw [travel_eq]
  simp only [reach, hd, he.ne_short w (by decide : "".length < 3),
    he.ne_short w (by decide : ".".length < 3), he.ne_short w (by decide : "..".length < 3)]
  unfold admits at hf
  split at hf
  · next hruns =>
    cases hf
    simp only [if_pos hruns, ↓reduceIte]
  · next hruns =>
    split at hf
    · next hlong =>
      cases hf
      simp only [if_neg hruns, if_pos hlong, ↓reduceIte]
    · cases hf

/-- A name that can be looked up in a directory with these permissions. -/
structure Passes (dm : Mode) (text w e : String) : Prop where
  path : checkPath ⟨text ++ e⟩ = .ok ()
  name : admits dm (w ++ e) = .ok ()

/-- The directory that holds the names with these steps before their endings. -/
structure Holder (t : FileTree) (cwd : Location) (text : String) (front : List String)
    (d : Location) (dm : Mode) : Prop where
  arrives : t.travel true linkLimit ((Path.mk text).origin cwd) front = .ok (d, true)
  directory : t.node? d = some (.directory dm)

namespace Holder

variable (h : Holder t cwd text front d dm)
  (hsteps : ∀ e, Path.IsEnding e → steps ⟨text ++ e⟩ = front ++ [w ++ e])
include h hsteps

/-- A name in a directory leads to its place there. -/
theorem locate (he : Path.IsEnding e) {follow : Bool}
    (hlink : ∀ target, t.node? ((w ++ e) :: d) = some (.link target) → follow = false) :
    t.locate follow cwd ⟨text ++ e⟩ = checkPath ⟨text ++ e⟩ >>= fun _ =>
      (admits dm (w ++ e)).map fun _ => ((w ++ e) :: d, (t.node? ((w ++ e) :: d)).isSome) := by
  obtain ⟨left, hgo⟩ := travel_on h.arrives
  rw [locate_eq, hsteps e he, he.origin, hgo follow _ (List.cons_ne_nil _ _),
    travel_last h.directory he hlink]

/-- A name that leads somewhere is let through, whatever lies there. -/
theorem passes (he : Path.IsEnding e) {follow there : Bool}
    (hl : t.locate follow cwd ⟨text ++ e⟩ = .ok (l, there)) : Passes dm text w e := by
  obtain ⟨left, hgo⟩ := travel_on h.arrives
  rw [locate_eq, hsteps e he, he.origin, hgo follow _ (List.cons_ne_nil _ _)] at hl
  obtain ⟨u, hcheck, hl⟩ := bind_ok hl
  cases hadmits : admits dm (w ++ e) with
  | error f =>
    rw [travel_refused h.directory he hadmits] at hl
    cases hl
  | ok v => exact ⟨hcheck, hadmits⟩

theorem spot (he : Path.IsEnding e) (hpasses : Passes dm text w e)
    (hlink : ∀ target, t.node? ((w ++ e) :: d) ≠ some (.link target)) :
    t.spot cwd ⟨text ++ e⟩ = .ok ((w ++ e) :: d, t.node? ((w ++ e) :: d)) := by
  refine spot_ok.mpr ⟨⟨(t.node? ((w ++ e) :: d)).isSome, ?_⟩, rfl⟩
  rw [h.locate hsteps he fun target ht => absurd ht (hlink target), hpasses.path, hpasses.name]
  rfl

theorem findItself (he : Path.IsEnding e) (hpasses : Passes dm text w e) :
    t.findItself cwd ⟨text ++ e⟩ = match t.node? ((w ++ e) :: d) with
      | some n => .ok ((w ++ e) :: d, n)
      | none => .error .notFound := by
  rw [FileTree.findItself, findAt, h.locate hsteps he fun _ _ => rfl, hpasses.path, hpasses.name]
  rfl

/-- A name leads to its place, unless a link lies there. -/
theorem spot_place (he : Path.IsEnding e) {o : Option Node}
    (hp : t.spot cwd ⟨text ++ e⟩ = .ok (l, o)) : Passes dm text w e ∧
      (l = (w ++ e) :: d ∨ ∃ target, t.findItself cwd ⟨text ++ e⟩ = .ok ((w ++ e) :: d, .link target)) := by
  obtain ⟨⟨there, hl⟩, -⟩ := spot_ok.mp hp
  have hpasses := h.passes hsteps he hl
  refine ⟨hpasses, ?_⟩
  have hitself := h.findItself hsteps he hpasses
  by_cases hlink : ∃ target, t.node? ((w ++ e) :: d) = some (.link target)
  · obtain ⟨target, hn⟩ := hlink
    rw [hn] at hitself
    exact .inr ⟨target, hitself⟩
  · rw [h.spot hsteps he hpasses fun target hn => hlink ⟨target, hn⟩] at hp
    cases hp
    exact .inl rfl

/-- Nothing is a file under a name that names nothing. -/
theorem isFile_vacant (he : Path.IsEnding e)
    (hvacant : t.findItself cwd ⟨text ++ e⟩ = .error .notFound) : t.isFile cwd ⟨text ++ e⟩ = false := by
  cases hspot : t.spot cwd ⟨text ++ e⟩ with
  | error f =>
    cases hfind : t.find cwd ⟨text ++ e⟩ with
    | error f => simp [isFile, hfind]
    | ok found =>
      rw [spot_of_find (n := found.2) hfind] at hspot
      cases hspot
  | ok found =>
    obtain ⟨l, o⟩ := found
    obtain ⟨hpasses, rfl | ⟨target, hlink⟩⟩ := h.spot_place hsteps he hspot
    · have hn := (spot_ok.mp hspot).2
      have hitself := h.findItself hsteps he hpasses
      rw [hvacant, ← hn] at hitself
      cases o with
      | none => simp [isFile, find_of_spot_none hspot]
      | some n => cases hitself
    · rw [hvacant] at hlink
      cases hlink

theorem findItself_ok (he : Path.IsEnding e) {n : Node}
    (hfind : t.findItself cwd ⟨text ++ e⟩ = .ok (l, n)) :
    l = (w ++ e) :: d ∧ t.node? ((w ++ e) :: d) = some n ∧ Passes dm text w e := by
  obtain ⟨⟨l', there⟩, hl, -⟩ := bind_ok hfind
  have hpasses := h.passes hsteps he hl
  rw [h.findItself hsteps he hpasses] at hfind
  split at hfind
  · next n' hn =>
    cases hfind
    exact ⟨rfl, hn, hpasses⟩
  · cases hfind

omit hsteps in
/-- Such an edit leaves the directory where it is. -/
theorem touched {dead : Location} (htouched : Touched t t' q dead) :
    Holder t' cwd text front d dm := by
  obtain ⟨hq, hdead⟩ := htouched.ne_of_directory h.directory
  have hdirectory : t'.node? d = some (.directory dm) := (htouched.same d hq).trans h.directory
  obtain ⟨there, harrives⟩ := htouched.travel hdead h.arrives
  cases there with
  | true => exact ⟨harrives, hdirectory⟩
  | false =>
    rw [travel_absent harrives] at hdirectory
    cases hdirectory

/-- What lies under a name depends on its place alone, if the directory is still there. -/
theorem findItself_congr (h' : Holder t' cwd text front d dm) (he : Path.IsEnding e)
    (hn : t'.node? ((w ++ e) :: d) = t.node? ((w ++ e) :: d)) :
    t'.findItself cwd ⟨text ++ e⟩ = t.findItself cwd ⟨text ++ e⟩ := by
  rw [FileTree.findItself, FileTree.findItself, findAt, findAt, h.locate hsteps he fun _ _ => rfl,
    h'.locate hsteps he fun _ _ => rfl, hn]
  cases checkPath ⟨text ++ e⟩ with
  | error f => rfl
  | ok u =>
    cases admits dm (w ++ e) with
    | error f => rfl
    | ok u => simp [bind, Except.bind, Except.map, hn]

end Holder

/-- A name that leads somewhere lies in a directory. -/
theorem holder_of_spot {o : Option Node} (he : Path.IsEnding e)
    (hsteps : steps ⟨text ++ e⟩ = front ++ [w ++ e]) (hp : t.spot cwd ⟨text ++ e⟩ = .ok (l, o)) :
    ∃ d dm, Holder t cwd text front d dm := by
  obtain ⟨⟨there, hl⟩, -⟩ := spot_ok.mp hp
  rw [locate_eq] at hl
  obtain ⟨u, -, hl⟩ := bind_ok hl
  rw [hsteps, he.origin] at hl
  rcases travel_append t linkLimit ((Path.mk text).origin cwd) front with
    ⟨d, left, hd, hgo⟩ | hstop
  · rw [hgo true _ (List.cons_ne_nil _ _), travel_eq] at hl
    cases hn : t.node? d with
    | none =>
      simp only [reach, hn] at hl
      cases hl
    | some n =>
      cases n with
      | directory dm => exact ⟨d, dm, hd, hn⟩
      | _ =>
        simp only [reach, hn] at hl
        cases hl
  · obtain ⟨f, hf⟩ := hstop true _ (List.cons_ne_nil (w ++ e) [])
    rw [hf] at hl
    cases hl

end FileTree

end Regression
