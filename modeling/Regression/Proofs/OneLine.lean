import Regression.Proofs.Census
import Regression.Proofs.Newlines

namespace Regression

namespace Text

/-- A text without a newline. -/
def OneLine (s : String) : Prop := '\n' ∉ s.toList

instance (s : String) : Decidable (OneLine s) := inferInstanceAs (Decidable (_ ∉ _))

@[simp] theorem oneLine_append {a b : String} : OneLine (a ++ b) ↔ OneLine a ∧ OneLine b := by
  simp [OneLine]

@[simp] theorem oneLine_ofList {cs : List Char} : OneLine (String.ofList cs) ↔ '\n' ∉ cs := by
  simp [OneLine]

@[simp] theorem oneLine_nat (n : Nat) : OneLine (toString n) := by
  simpa [OneLine] using not_mem_digits (by decide) n

theorem oneLine_join {ss : List String} (h : ∀ s ∈ ss, OneLine s) : OneLine (String.join ss) := by
  induction ss with
  | nil => decide
  | cons s ss ih =>
    obtain ⟨hs, hrest⟩ := List.forall_mem_cons.mp h
    simp [String.join_cons, hs, ih hrest]

theorem oneLine_intercalate {mark : String} {ss : List String} (hmark : OneLine mark)
    (h : ∀ s ∈ ss, OneLine s) : OneLine (String.intercalate mark ss) := by
  induction ss with
  | nil => exact List.not_mem_nil
  | cons s ss ih =>
    obtain ⟨hs, hrest⟩ := List.forall_mem_cons.mp h
    cases ss with
    | nil => simpa using hs
    | cons t ss => simp [String.intercalate_cons_cons, hs, hmark, ih hrest]

/-- No capital letter has a newline for its small one. -/
theorem shifted_newline {c : Char} (h : shifted lowerShifts c = '\n') : c = '\n' := by
  have himage : ∀ s ∈ lowerShifts, 10 < (s.first : Int) + s.offset := by decide +kernel
  unfold shifted at h
  split at h
  · next s hfind =>
    have hcovers := List.find?_some hfind
    simp only [Shift.covers, Bool.and_eq_true, decide_eq_true_eq] at hcovers
    have hs := himage s (List.mem_of_find?_eq_some hfind)
    have hnewline := ofNat_newline h
    omega
  · exact h

theorem oneLine_lower {s : String} (h : OneLine s) : OneLine (lower s) := by
  have hfrom : ∀ before cs, '\n' ∉ cs → '\n' ∉ lowerFrom before cs := by
    intro before cs hcs
    induction cs generalizing before with
    | nil => exact hcs
    | cons c cs ih =>
      obtain ⟨hc, hrest⟩ := not_or.mp (fun hmem => hcs (List.mem_cons.mpr hmem))
      rw [lowerFrom, List.mem_append]
      rintro (hhere | hthere)
      · unfold lowerChar at hhere
        split at hhere
        · split at hhere <;> simp at hhere
        · split at hhere
          · simp at hhere
          · exact hc (shifted_newline (List.mem_singleton.mp hhere).symm).symm
      · exact ih _ hrest hthere
  rw [lower, oneLine_ofList]
  exact hfrom [] s.toList h

end Text

open Text (OneLine)

namespace Path

variable {p q : Path} {s : String}

theorem oneLine_div (hp : OneLine p.text) (hs : OneLine s) : OneLine (p / s).text := by
  change OneLine (p.join s).text
  unfold join
  split
  · exact hs
  · split
    · exact Text.oneLine_append.mpr ⟨hp, hs⟩
    · simp only [Text.oneLine_append]
      exact ⟨⟨hp, by decide⟩, hs⟩

/-- What is between separators is part of the whole. -/
theorem subset_intercalate {mark piece : List Char} {pieces : List (List Char)}
    (h : piece ∈ pieces) : piece ⊆ mark.intercalate pieces := by
  induction pieces with
  | nil => cases h
  | cons first rest ih =>
    cases rest with
    | nil => simp [List.mem_singleton.mp h]
    | cons second rest =>
      rw [List.intercalate_cons_cons]
      rcases List.mem_cons.mp h with rfl | h
      · exact fun c hc => by simp [hc]
      · exact fun c hc => by simp [ih h hc]

theorem oneLine_pieces (hp : OneLine p.text) (hs : s ∈ p.pieces) : OneLine s := by
  obtain ⟨piece, hpiece, rfl⟩ := List.mem_map.mp hs
  have hsub : piece ⊆ ['/'].intercalate (p.text.toList.splitOn '/') := subset_intercalate hpiece
  rw [List.intercalate_splitOn] at hsub
  rw [Text.oneLine_ofList]
  exact fun hmem => hp (hsub hmem)

theorem oneLine_joined {ps : List String} (h : ∀ s ∈ ps, OneLine s) : OneLine (joined ps) :=
  Text.oneLine_intercalate (by decide) h

theorem oneLine_path {st : Start} {ps : List String} (h : ∀ s ∈ ps, OneLine s) :
    OneLine (st.path ps).text := by
  have hjoined := oneLine_joined h
  have habove : ∀ root : String, OneLine root → OneLine (root ++ joined ps) := fun root hroot =>
    Text.oneLine_append.mpr ⟨hroot, hjoined⟩
  unfold Start.path
  split
  · exact habove "/" (by decide)
  · split
    · exact (by decide : OneLine ".")
    · exact habove "./" (by decide)
  · exact hjoined

theorem oneLine_body (hp : OneLine p.text) (hs : s ∈ dropIdleEnd p.body) : OneLine s :=
  oneLine_pieces hp (Terrain.mem_pieces_of_body
    (List.mem_reverse.mp (List.dropWhile_subset _ (List.mem_reverse.mp hs))))

theorem oneLine_parent (hp : OneLine p.text) (h : p.parent = some q) : OneLine q.text := by
  unfold parent at h
  split at h
  · split at h
    · cases h
      exact (by decide : OneLine "")
    · cases h
  · next body hbody =>
    cases h
    refine oneLine_path fun s hs => oneLine_body hp ?_
    exact List.dropLast_subset _
      (List.mem_reverse.mp (List.dropWhile_subset _ (List.mem_reverse.mp hs)))

theorem oneLine_fileName (hp : OneLine p.text) (h : p.fileName = some s) : OneLine s := by
  unfold fileName at h
  split at h
  · cases h
  · next last hlast =>
    split at h
    · cases h
    · cases h
      exact oneLine_body hp (List.mem_of_getLast? hlast)

/-- Each step of a route comes from a piece. -/
theorem oneLine_components {c : Component} (hp : OneLine p.text) (hc : c ∈ p.components) :
    OneLine (Component.text c) := by
  rw [components, List.mem_append] at hc
  rcases hc with hc | hc
  · cases hstart : p.start <;> rw [hstart] at hc <;>
      simp only [Start.components, List.mem_singleton, List.not_mem_nil] at hc
    · rw [hc]
      decide
    · rw [hc]
      decide
  · obtain ⟨s, hs, rfl⟩ := List.mem_map.mp hc
    have hpiece := Terrain.mem_pieces_of_body (List.mem_of_mem_filter hs)
    unfold step
    split
    · exact (by decide : OneLine "..")
    · exact oneLine_pieces hp hpiece

theorem oneLine_ofComponents {cs : List Component} (h : ∀ c ∈ cs, OneLine (Component.text c)) :
    OneLine (ofComponents cs).text := by
  have hjoined : ∀ {cs : List Component}, (∀ c ∈ cs, OneLine (Component.text c)) →
      OneLine (joined (cs.map Component.text)) := fun h =>
    oneLine_joined (List.forall_mem_map.mpr h)
  unfold ofComponents
  split
  · exact Text.oneLine_append.mpr ⟨by decide, hjoined (List.forall_mem_cons.mp h).2⟩
  · exact hjoined h

/-- Only a step up may be added. -/
theorem mem_settle {taken : List Component} {c d : Component} (h : d ∈ settle taken c) :
    d ∈ taken ∨ d = c ∨ d = .up := by
  unfold settle at h
  split at h
  · exact .inl h
  · split at h
    · exact .inl (List.mem_cons_of_mem _ h)
    · exact .inl h
    · exact (List.mem_cons.mp h).elim (.inr ∘ .inr) .inl
  · exact (List.mem_cons.mp h).elim (.inr ∘ .inl) .inl

theorem oneLine_normalize (hp : OneLine p.text) : OneLine p.normalize.text := by
  have hfold : ∀ (cs taken : List Component), (∀ c ∈ cs, OneLine (Component.text c)) →
      (∀ c ∈ taken, OneLine (Component.text c)) →
        ∀ c ∈ cs.foldl settle taken, OneLine (Component.text c) := by
    intro cs
    induction cs with
    | nil => exact fun taken _ htaken => htaken
    | cons c cs ih =>
      intro taken hcs htaken
      obtain ⟨hc, hrest⟩ := List.forall_mem_cons.mp hcs
      refine ih _ hrest fun d hd => ?_
      rcases mem_settle hd with hd | rfl | rfl
      · exact htaken d hd
      · exact hc
      · decide
  refine oneLine_ofComponents fun c hc => ?_
  exact hfold _ [] (fun c hc => oneLine_components hp hc) nofun c (List.mem_reverse.mp hc)

end Path

/-- A stamp is of digits and a point. -/
theorem Clock.oneLine_runStamp (c : Clock) : OneLine c.runStamp := by
  have hdigits : ∀ width n, OneLine (Clock.digits width n) := by
    intro width n
    refine Text.oneLine_append.mpr ⟨?_, Text.oneLine_nat n⟩
    rw [Text.oneLine_ofList]
    intro h
    cases List.eq_of_mem_replicate h
  simp [runStamp, hdigits, (by decide : OneLine ".")]

end Regression
