import Mathlib.Data.List.Basic
import Regression.Proofs.Steps

namespace Regression.Path

variable {p : Path} {s : String} {ps : List String} {c : Component} {cs : List Component}

/-- A step of a route: up, or down to a name. -/
def IsStep : Component → Prop
  | .up => True
  | .name s => IsName s
  | .root | .current => False

/-- A piece that is a step wherever it stands. -/
structure IsPlain (s : String) : Prop where
  busy : isIdle s = false
  whole : '/' ∉ s.toList

theorem IsPlain.filled (h : IsPlain s) : s ≠ "" := by
  rintro rfl
  exact absurd h.busy (by decide)

theorem IsPlain.notHere (h : IsPlain s) : s ≠ "." := by
  rintro rfl
  exact absurd h.busy (by decide)

theorem isPlain_of_isName (h : IsName s) : IsPlain s :=
  ⟨by simp [isIdle, h.filled, h.notHere], h.whole⟩

theorem isPlain_text (h : IsStep c) : IsPlain (Component.text c) := by
  cases c with
  | up => exact ⟨by decide, by decide⟩
  | name s => exact isPlain_of_isName h
  | root | current => cases h

/-- A step is read back from its text. -/
theorem step_text (h : IsStep c) : step (Component.text c) = c := by
  cases c with
  | up => rfl
  | name s => exact if_neg h.notUp
  | root | current => cases h

theorem isStep_step (h : IsPlain s) : IsStep (step s) := by
  unfold step
  split
  · trivial
  · next hup => exact ⟨h.filled, h.notHere, hup, h.whole⟩

section Pieces

theorem whole_of_mem_splitOn {cs piece : List Char} (h : piece ∈ cs.splitOn '/') : '/' ∉ piece := by
  induction cs generalizing piece with
  | nil =>
    rw [List.splitOn_nil, List.mem_singleton] at h
    simp [h]
  | cons c cs ih =>
    rw [List.splitOn_cons_eq_if_modifyHead] at h
    split at h
    · rcases List.mem_cons.mp h with rfl | h
      · exact List.not_mem_nil
      · exact ih h
    · next hc =>
      cases hsplit : cs.splitOn '/' with
      | nil => exact absurd hsplit (List.splitOn_ne_nil _ _)
      | cons first rest =>
        rw [hsplit] at h ih
        rcases List.mem_cons.mp h with rfl | h
        · refine List.not_mem_cons_of_ne_of_not_mem ?_ (ih List.mem_cons_self)
          rintro rfl
          simp at hc
        · exact ih (List.mem_cons_of_mem _ h)

theorem whole_of_mem_pieces (h : s ∈ p.pieces) : '/' ∉ s.toList := by
  obtain ⟨piece, hpiece, rfl⟩ := List.mem_map.mp h
  rw [String.toList_ofList]
  exact whole_of_mem_splitOn hpiece

/-- Pieces are read back from their join. -/
theorem pieces_joined (h : ∀ s ∈ ps, '/' ∉ s.toList) (hne : ps ≠ []) :
    (Path.mk (joined ps)).pieces = ps := by
  have hseparator : "/".toList = ['/'] := rfl
  have hsplit : (joined ps).toList.splitOn '/' = ps.map String.toList := by
    rw [joined, String.toList_intercalate, hseparator]
    refine List.splitOn_intercalate '/' ?_ (by simpa using hne)
    intro cs hcs
    obtain ⟨s, hs, rfl⟩ := List.mem_map.mp hcs
    exact h s hs
  rw [pieces, hsplit, List.map_map]
  simp

theorem pieces_separator (s : String) : (Path.mk ("/" ++ s)).pieces = "" :: (Path.mk s).pieces := by
  have hsplit := List.splitOn_append_cons_self (a := '/') [] s.toList
  rw [List.nil_append, List.splitOn_nil] at hsplit
  have htext : ("/" ++ s).toList = '/' :: s.toList := by simp
  rw [pieces, htext, hsplit]
  rfl

theorem pieces_ne_nil (p : Path) : p.pieces ≠ [] := by
  simp [pieces, List.splitOn_ne_nil]

/-- A path starts at the root where it begins with a separator. -/
theorem isAbsolute_iff : p.isAbsolute = true ↔ ∃ s, p = ⟨"/" ++ s⟩ := by
  unfold isAbsolute
  constructor
  · intro h
    cases htext : p.text.toList with
    | nil =>
      rw [htext] at h
      cases h
    | cons c cs =>
      rw [htext] at h
      have hc : c = '/' := by simpa using h
      refine ⟨String.ofList cs, ?_⟩
      cases p
      refine congrArg Path.mk (String.toList_inj.mp ?_)
      simp [htext, hc]
  · rintro ⟨s, rfl⟩
    simp

theorem text_ne_of_absolute (h : p.isAbsolute = true) : p.text ≠ "" := by
  intro hempty
  simp [isAbsolute, hempty] at h

theorem start_of_absolute (h : p.isAbsolute = true) : p.start = .root := by
  obtain ⟨s, rfl⟩ := isAbsolute_iff.mp h
  rw [start, pieces_separator]
  cases hpieces : (Path.mk s).pieces with
  | nil => exact absurd hpieces (pieces_ne_nil _)
  | cons first rest => rfl

theorem isAbsolute_of_start (h : p.start = .root) : p.isAbsolute = true := by
  unfold start at h
  split at h
  · next second rest hpieces =>
    cases htext : p.text.toList with
    | nil =>
      rw [pieces, htext] at hpieces
      cases hpieces
    | cons c cs =>
      by_cases hc : c = '/'
      · simp [isAbsolute, htext, hc]
      · rw [pieces, htext, List.splitOn_cons_eq_if_modifyHead, if_neg (by simpa using hc)] at hpieces
        cases hsplit : cs.splitOn '/' with
        | nil => exact absurd hsplit (List.splitOn_ne_nil _ _)
        | cons first more => simp [hsplit] at hpieces
  · cases h
  · cases h

end Pieces

/-- The steps of some pieces, one for each piece that is not idle. -/
def routeOf (ps : List String) : List Component := (ps.filter fun s => !isIdle s).map step

/-- The steps that a path takes from where it starts. -/
def route (p : Path) : List Component := routeOf p.pieces

theorem routeOf_append (ps qs : List String) : routeOf (ps ++ qs) = routeOf ps ++ routeOf qs := by
  simp [routeOf]

theorem routeOf_idle (h : isIdle s = true) (ps : List String) : routeOf (s :: ps) = routeOf ps := by
  simp [routeOf, h]

theorem routeOf_texts (h : ∀ c ∈ cs, IsStep c) : routeOf (cs.map Component.text) = cs := by
  induction cs with
  | nil => rfl
  | cons c cs ih =>
    obtain ⟨hc, hcs⟩ := List.forall_mem_cons.mp h
    have hrest := ih hcs
    simp only [routeOf] at hrest
    simp [routeOf, (isPlain_text hc).busy, step_text hc, hrest]

theorem isStep_of_mem_routeOf (hps : ∀ s ∈ ps, '/' ∉ s.toList) (h : c ∈ routeOf ps) :
    IsStep c := by
  obtain ⟨s, hs, rfl⟩ := List.mem_map.mp h
  obtain ⟨hmem, hbusy⟩ := List.mem_filter.mp hs
  exact isStep_step ⟨by simpa using hbusy, hps s hmem⟩

theorem isStep_of_mem_route (h : c ∈ p.route) : IsStep c :=
  isStep_of_mem_routeOf (fun _ hs => whole_of_mem_pieces hs) h

theorem components_eq (p : Path) : p.components = p.start.components ++ p.route := by
  rw [components, body, route]
  unfold start
  split
  · next second rest hpieces =>
    rw [hpieces, routeOf_idle (by decide)]
    rfl
  · next rest hpieces =>
    rw [hpieces, routeOf_idle (by decide)]
    rfl
  · rfl

/-- Pieces that are steps are read back from the path that they make. -/
theorem start_path {st : Start} (hst : st ≠ .current) (h : ∀ s ∈ ps, IsPlain s) :
    (st.path ps).start = st := by
  cases st with
  | current => exact absurd rfl hst
  | root => exact start_of_absolute (isAbsolute_iff.mpr ⟨_, rfl⟩)
  | plain =>
    cases ps with
    | nil => rfl
    | cons s ps =>
      have hs := h s List.mem_cons_self
      rw [Start.path, start, pieces_joined (fun s hs => (h s hs).whole) (by simp)]
      split
      · next hpieces => exact absurd (List.cons.inj hpieces).1 hs.filled
      · next hpieces => exact absurd (List.cons.inj hpieces).1 hs.notHere
      · rfl

theorem body_path {st : Start} (hst : st ≠ .current) (h : ∀ s ∈ ps, IsPlain s) (hne : ps ≠ []) :
    (st.path ps).body = ps := by
  have hpieces := pieces_joined (fun s hs => (h s hs).whole) hne
  rw [body, start_path hst h]
  cases st with
  | current => exact absurd rfl hst
  | root => rw [Start.path, pieces_separator, hpieces, List.tail_cons]
  | plain => exact hpieces

theorem route_path {st : Start} (hst : st ≠ .current) (h : ∀ s ∈ ps, IsPlain s) :
    (st.path ps).route = routeOf ps := by
  have hroute : (Path.mk (joined ps)).route = routeOf ps := by
    cases ps with
    | nil => rfl
    | cons s ps => rw [route, pieces_joined (fun s hs => (h s hs).whole) (by simp)]
  cases st with
  | current => exact absurd rfl hst
  | plain => exact hroute
  | root =>
    rw [Start.path, route, pieces_separator, routeOf_idle (by decide)]
    exact hroute

theorem dropIdleEnd_plain (h : ∀ s ∈ ps, IsPlain s) : dropIdleEnd ps = ps := by
  rcases List.eq_nil_or_concat' ps with rfl | ⟨front, s, rfl⟩
  · rfl
  · have hs : IsPlain s := h s (by simp)
    simp [dropIdleEnd, hs.busy]

theorem fileName_path {st : Start} (hst : st ≠ .current) (h : ∀ s ∈ ps, IsPlain s)
    (hs : IsName s) : (st.path (ps ++ [s])).fileName = some s := by
  have hall : ∀ s' ∈ ps ++ [s], IsPlain s' :=
    List.forall_mem_append.mpr ⟨h, List.forall_mem_singleton.mpr (isPlain_of_isName hs)⟩
  rw [fileName, body_path hst hall (by simp), dropIdleEnd_plain hall, List.getLast?_concat]
  exact if_neg hs.notUp

theorem parent_path {st : Start} (hst : st ≠ .current) (h : ∀ s ∈ ps, IsPlain s)
    (hs : IsPlain s) : (st.path (ps ++ [s])).parent = some (st.path ps) := by
  have hall : ∀ s' ∈ ps ++ [s], IsPlain s' :=
    List.forall_mem_append.mpr ⟨h, List.forall_mem_singleton.mpr hs⟩
  rw [parent, body_path hst hall (by simp), dropIdleEnd_plain hall, start_path hst hall]
  split
  · next hnil => simp at hnil
  · rw [List.dropLast_concat, dropIdleEnd_plain h]

theorem joined_concat (hne : ps ≠ []) (s : String) : joined (ps ++ [s]) = joined ps ++ "/" ++ s := by
  rw [joined, String.intercalate_append_of_ne_nil hne (by simp), String.intercalate_singleton]
  rfl

theorem joined_ending (ps : List String) (s : String) :
    ∃ front, joined (ps ++ [s]) = front ++ s := by
  cases ps with
  | nil => exact ⟨"", by simp [joined]⟩
  | cons first rest => exact ⟨_, joined_concat (List.cons_ne_nil first rest) s⟩

theorem endsInSeparator_plain (h : IsPlain s) (text : String) :
    (Path.mk (text ++ s)).endsInSeparator = false := by
  have hletters : s.toList ≠ [] := by simpa using h.filled
  have hends : s.toList.getLast hletters ≠ '/' := fun he =>
    h.whole (he ▸ List.getLast_mem hletters)
  rw [endsInSeparator, String.toList_append, List.getLast?_append,
    List.getLast?_eq_some_getLast hletters]
  simpa using hends

/-- A path that is made of pieces grows by a piece. -/
theorem path_join {st : Start} (hst : st ≠ .current) (h : ∀ s ∈ ps, IsPlain s) (hs : IsPlain s) :
    st.path ps / s = st.path (ps ++ [s]) := by
  have hhead := head_ne_separator hs.whole
  have hjoin : st.path ps / s =
      if (st.path ps).text == "" || (st.path ps).text.toList.getLast? == some '/' then
        ⟨(st.path ps).text ++ s⟩
      else ⟨(st.path ps).text ++ "/" ++ s⟩ := by
    change join _ s = _
    rw [join, hhead]
    rfl
  rcases List.eq_nil_or_concat' ps with rfl | ⟨front, last, rfl⟩
  · cases st with
    | current => exact absurd rfl hst
    | root => rw [hjoin]; simp [Start.path, joined]
    | plain => rw [hjoin]; simp [Start.path, joined]
  · have hlast : IsPlain last := h last (by simp)
    obtain ⟨text, htext⟩ : ∃ text, (st.path (front ++ [last])).text = text ++ last := by
      obtain ⟨text, htext⟩ := joined_ending front last
      cases st with
      | current => exact absurd rfl hst
      | root => exact ⟨"/" ++ text, by rw [Start.path, htext, String.append_assoc]⟩
      | plain => exact ⟨text, htext⟩
    have hfilled : ((st.path (front ++ [last])).text == "") = false := by
      simp [htext, hlast.filled]
    have hopen : ((st.path (front ++ [last])).text.toList.getLast? == some '/') = false := by
      rw [htext]
      exact endsInSeparator_plain hlast text
    have hgrown : joined (front ++ [last] ++ [s]) = joined (front ++ [last]) ++ "/" ++ s :=
      joined_concat (by simp) s
    rw [hjoin, hfilled, hopen, if_neg (by simp)]
    cases st with
    | current => exact absurd rfl hst
    | root => simp only [Start.path, hgrown, String.append_assoc]
    | plain => rw [Start.path, Start.path, hgrown]

/-- A route from the root, or from where one is. -/
theorem ofComponents_eq {st : Start} (hst : st ≠ .current) (h : ∀ c ∈ cs, IsStep c) :
    ofComponents (st.components ++ cs) = st.path (cs.map Component.text) := by
  cases st with
  | current => exact absurd rfl hst
  | root => rfl
  | plain =>
    cases cs with
    | nil => rfl
    | cons c cs =>
      have hc := h c List.mem_cons_self
      cases c with
      | root => cases hc
      | _ => rfl

theorem isPlain_texts (h : ∀ c ∈ cs, IsStep c) : ∀ s ∈ cs.map Component.text, IsPlain s := by
  intro s hs
  obtain ⟨c, hc, rfl⟩ := List.mem_map.mp hs
  exact isPlain_text (h c hc)

/-- A route is read back from the path that it makes. -/
theorem components_ofComponents {st : Start} (hst : st ≠ .current) (h : ∀ c ∈ cs, IsStep c) :
    (ofComponents (st.components ++ cs)).components = st.components ++ cs := by
  rw [ofComponents_eq hst h, components_eq, start_path hst (isPlain_texts h),
    route_path hst (isPlain_texts h), routeOf_texts h]

end Regression.Path
