import Regression.Proofs.Unlinked

namespace Regression

open Text (Bytes)

/-- The serial number of a regular file. -/
def Node.serial? : Node → Option Nat
  | .file s _ _ => some s
  | _ => none

namespace FileTree

/-- Nothing, or a regular file. -/
def Plain (o : Option Node) : Prop := ∀ n, o = some n → n.isFile = true

theorem Plain.cases {o : Option Node} (h : Plain o) : o = none ∨ ∃ s m c, o = some (.file s m c) := by
  cases o with
  | none => exact .inl rfl
  | some n =>
    have hn := h n rfl
    cases n with
    | file s m c => exact .inr ⟨s, m, c, rfl⟩
    | _ => cases hn

theorem plain_file (s : Nat) (m : Mode) (c : Bytes) : Plain (some (.file s m c)) := by
  intro n hn
  cases hn
  rfl

theorem Plain.ends {o : Option Node} (h : Plain o) : Ends o := by
  intro n hn
  have hfile := h n hn
  cases n with
  | file => exact ⟨rfl, rfl⟩
  | _ => cases hfile

/-- A file holds these bytes under a name. -/
def Holds (t : FileTree) (cwd : Location) (p : Path) (bytes : Bytes) : Prop :=
  ∃ l k mode, t.spot cwd p = .ok (l, some (.file k mode bytes))

/-- Nothing lies under a name. -/
def Vacant (t : FileTree) (cwd : Location) (p : Path) : Prop :=
  ∃ l, t.spot cwd p = .ok (l, none)

/-- Paths that lead to regular files or to nothing, no two of them to the same. -/
structure Apart (t : FileTree) (cwd : Location) (names : List Path) : Prop where
  sound : t.Sound
  plain : ∀ p ∈ names, ∃ l o, t.spot cwd p = .ok (l, o) ∧ Plain o
  places : ∀ p ∈ names, ∀ p' ∈ names, p ≠ p' → ∀ l o l' o', t.spot cwd p = .ok (l, o) →
    t.spot cwd p' = .ok (l', o') → l ≠ l'
  serials : ∀ p ∈ names, ∀ p' ∈ names, p ≠ p' → ∀ l n l' n' k, t.spot cwd p = .ok (l, some n) →
    t.spot cwd p' = .ok (l', some n') → n.serial? = some k → n'.serial? ≠ some k

/-- Whether names are apart, pair by pair. -/
def areApart (t : FileTree) (cwd : Location) (names : List Path) : Bool :=
  names.all fun p =>
    match t.spot cwd p with
    | .error _ => false
    | .ok (l, o) =>
      o.all Node.isFile && names.all fun p' =>
        p' == p ||
          match t.spot cwd p' with
          | .error _ => true
          | .ok (l', o') => l' != l && (o.bind Node.serial?).all fun k => o'.bind Node.serial? != some k

theorem apart_of_areApart {t : FileTree} {cwd : Location} {names : List Path} (hs : t.Sound)
    (h : t.areApart cwd names = true) : t.Apart cwd names := by
  have hpair : ∀ p ∈ names, ∃ l o, t.spot cwd p = .ok (l, o) ∧ o.all Node.isFile = true ∧
      ∀ p' ∈ names, p ≠ p' → ∀ l' o', t.spot cwd p' = .ok (l', o') → l' ≠ l ∧
        ∀ k, o.bind Node.serial? = some k → o'.bind Node.serial? ≠ some k := by
    intro p hp
    have hchecked := List.all_eq_true.mp h p hp
    cases hspot : t.spot cwd p with
    | error f =>
      rw [hspot] at hchecked
      cases hchecked
    | ok found =>
      obtain ⟨l, o⟩ := found
      rw [hspot] at hchecked
      simp only [Bool.and_eq_true, List.all_eq_true] at hchecked
      refine ⟨l, o, rfl, hchecked.1, fun p' hp' hne l' o' hspot' => ?_⟩
      have hother := hchecked.2 p' hp'
      rw [hspot'] at hother
      simp only [Bool.or_eq_true, beq_iff_eq, Bool.and_eq_true, bne_iff_ne] at hother
      rcases hother with he | ⟨hl, hk⟩
      · exact absurd he.symm hne
      · refine ⟨hl, fun k hk' => ?_⟩
        rw [hk'] at hk
        simpa using hk
  refine ⟨hs, ?_, ?_, ?_⟩
  · intro p hp
    obtain ⟨l, o, hspot, hfile, -⟩ := hpair p hp
    refine ⟨l, o, hspot, fun n hn => ?_⟩
    rw [hn] at hfile
    exact hfile
  · intro p hp p' hp' hne l o l' o' hl hl'
    obtain ⟨l₁, o₁, hspot, -, hothers⟩ := hpair p hp
    rw [hl] at hspot
    cases hspot
    exact ((hothers p' hp' hne l' o' hl').1).symm
  · intro p hp p' hp' hne l n l' n' k hl hl' hk
    obtain ⟨l₁, o₁, hspot, -, hothers⟩ := hpair p hp
    rw [hl] at hspot
    cases hspot
    exact (hothers p' hp' hne l' (some n') hl').2 k hk

/-- What writing under one of such names has done: the file there holds what was written, and at the
end of the others nothing has changed. -/
structure Wrote (t t' : FileTree) (cwd : Location) (names : List Path) (p : Path) (serial : Nat)
    (contents : Bytes) : Prop where
  apart : t'.Apart cwd names
  here : ∃ l m, t'.spot cwd p = .ok (l, some (.file serial m contents))
  others : ∀ p' ∈ names, p' ≠ p → t'.spot cwd p' = t.spot cwd p'

variable {t t' : FileTree} {cwd l : Location} {p : Path} {names : List Path} {k : Nat} {c : Bytes}
  {o : Option Node} {m : Mode}

namespace Apart

/-- Such names stay apart where no name leads anywhere new. -/
theorem same (h : t.Apart cwd names) (hsound : t'.Sound)
    (hsame : ∀ p ∈ names, t'.spot cwd p = t.spot cwd p) : t'.Apart cwd names := by
  refine ⟨hsound, ?_, ?_, ?_⟩
  · intro p hp
    rw [hsame p hp]
    exact h.plain p hp
  · intro p hp p' hp' hne l o l' o' hl hl'
    rw [hsame p hp] at hl
    rw [hsame p' hp'] at hl'
    exact h.places p hp p' hp' hne l o l' o' hl hl'
  · intro p hp p' hp' hne l n l' n' k hl hl'
    rw [hsame p hp] at hl
    rw [hsame p' hp'] at hl'
    exact h.serials p hp p' hp' hne l n l' n' k hl hl'

/-- Names stay apart where one of them alone leads to something else, which is none of the others. -/
theorem moved (h : t.Apart cwd names) (hsound : t'.Sound) (hnew : t'.spot cwd p = .ok (l, o))
    (hplain : Plain o) (hothers : ∀ p' ∈ names, p' ≠ p → t'.spot cwd p' = t.spot cwd p')
    (hplace : ∀ p' ∈ names, p' ≠ p → ∀ l' o', t.spot cwd p' = .ok (l', o') → l' ≠ l)
    (hserial : ∀ p' ∈ names, p' ≠ p → ∀ l' n' n k, t.spot cwd p' = .ok (l', some n') →
      o = some n → n.serial? = some k → n'.serial? ≠ some k) : t'.Apart cwd names := by
  refine ⟨hsound, ?_, ?_, ?_⟩
  · intro p' hp'
    by_cases he : p' = p
    · exact ⟨l, o, he ▸ hnew, hplain⟩
    · rw [hothers p' hp' he]
      exact h.plain p' hp'
  · intro p₁ h₁ p₂ h₂ hne l₁ o₁ l₂ o₂ hl₁ hl₂
    by_cases he₁ : p₁ = p
    · subst he₁
      rw [hnew] at hl₁
      cases hl₁
      rw [hothers p₂ h₂ (Ne.symm hne)] at hl₂
      exact (hplace p₂ h₂ (Ne.symm hne) l₂ o₂ hl₂).symm
    · rw [hothers p₁ h₁ he₁] at hl₁
      by_cases he₂ : p₂ = p
      · subst he₂
        rw [hnew] at hl₂
        cases hl₂
        exact hplace p₁ h₁ he₁ l₁ o₁ hl₁
      · rw [hothers p₂ h₂ he₂] at hl₂
        exact h.places p₁ h₁ p₂ h₂ hne l₁ o₁ l₂ o₂ hl₁ hl₂
  · intro p₁ h₁ p₂ h₂ hne l₁ n₁ l₂ n₂ k' hl₁ hl₂ hk'
    by_cases he₁ : p₁ = p
    · subst he₁
      rw [hnew] at hl₁
      cases hl₁
      rw [hothers p₂ h₂ (Ne.symm hne)] at hl₂
      exact hserial p₂ h₂ (Ne.symm hne) l₂ n₂ n₁ k' hl₂ rfl hk'
    · rw [hothers p₁ h₁ he₁] at hl₁
      by_cases he₂ : p₂ = p
      · subst he₂
        rw [hnew] at hl₂
        cases hl₂
        exact fun hk => hserial p₁ h₁ he₁ l₁ n₁ n₂ k' hl₁ rfl hk hk'
      · rw [hothers p₂ h₂ he₂] at hl₂
        exact h.serials p₁ h₁ p₂ h₂ hne l₁ n₁ l₂ n₂ k' hl₁ hl₂ hk'

/-- A file may take the place of what lies at the end of one name, if it is none of the others. -/
theorem wrote (h : t.Apart cwd names) (hp : p ∈ names) (hsound : t'.Sound)
    (hold : t.spot cwd p = .ok (l, o)) (hnew : t'.spot cwd p = .ok (l, some (.file k m c)))
    (hothers : ∀ p' ∈ names, p' ≠ p → t'.spot cwd p' = t.spot cwd p')
    (hserial : ∀ p' ∈ names, p' ≠ p → ∀ l' n, t.spot cwd p' = .ok (l', some n) →
      n.serial? ≠ some k) : Wrote t t' cwd names p k c := by
  refine ⟨?_, ⟨l, m, hnew⟩, hothers⟩
  refine h.moved hsound hnew (plain_file k m c) hothers ?_ ?_
  · intro p' hp' hne l' o' hl'
    exact h.places p' hp' p hp hne l' o' l o hl' hold
  · intro p' hp' hne l' n' n k' hl' hn hk'
    cases hn
    cases hk'
    exact hserial p' hp' hne l' n' hl'

/-- Through its serial number the file of one name alone is written. -/
theorem mapContents (h : t.Apart cwd names) (hp : p ∈ names)
    (hfile : t.spot cwd p = .ok (l, some (.file k m c))) (f : Bytes → Bytes) :
    Wrote t (t.mapContents k f) cwd names p k (f c) := by
  have hserial : ∀ p' ∈ names, p' ≠ p → ∀ l' n, t.spot cwd p' = .ok (l', some n) →
      n.serial? ≠ some k := fun p' hp' hne l' n hl' =>
    h.serials p hp p' hp' (Ne.symm hne) l _ l' n k hfile hl' rfl
  refine h.wrote hp (h.sound.mapContents k f) hfile (m := m) ?_ ?_ hserial
  · rw [spot_mapContents k f hfile]
    simp [Node.rewrite]
  · intro p' hp' hne
    obtain ⟨l', o', hl', hplain⟩ := h.plain p' hp'
    rw [spot_mapContents k f hl', hl']
    rcases hplain.cases with rfl | ⟨s, m', c', rfl⟩
    · rfl
    · have hs : s ≠ k := fun hs => hserial p' hp' hne l' _ hl' (congrArg some hs)
      simp [Node.rewrite, hs]

end Apart

theorem Wrote.trans {t₁ : FileTree} {k' : Nat} {c' : Bytes} (h : Wrote t t₁ cwd names p k c)
    (h' : Wrote t₁ t' cwd names p k' c') : Wrote t t' cwd names p k' c' :=
  ⟨h'.apart, h'.here, fun p' hp' hne => (h'.others p' hp' hne).trans (h.others p' hp' hne)⟩

theorem openFile_whole {how : Opening} {hd : Handle} (hok : t.openFile cwd p how m = .ok (t', hd)) :
    p.endsInSeparator = false := by
  obtain ⟨_, -, hok⟩ := bind_ok hok
  obtain ⟨⟨l, there⟩, -, hok⟩ := bind_ok hok
  have hforDirectory : (p.text.toList.getLast? == some '/') = p.endsInSeparator := rfl
  cases hp : p.endsInSeparator with
  | false => rfl
  | true =>
    simp only [hforDirectory, hp] at hok
    cases hok

/-- A file can be opened for writing where its owner may write it. -/
theorem openFile_isOk {mode : Mode} (hp : p.endsInSeparator = false)
    (hfile : t.spot cwd p = .ok (l, some (.file k mode c))) (how : Opening) (m : Mode) :
    (t.openFile cwd p how m).isOk = mode.ownerWrites := by
  obtain ⟨⟨there, hl⟩, hn⟩ := spot_ok.mp hfile
  have hforDirectory : (p.text.toList.getLast? == some '/') = p.endsInSeparator := rfl
  cases there with
  | false =>
    rw [locate_absent hl] at hn
    cases hn
  | true =>
    have hcheck : checkPath p = .ok () := by
      rw [locate_eq] at hl
      exact (bind_ok hl).choose_spec.1
    simp only [openFile, hcheck, hforDirectory, hp, dropSeparators_eq hp, Bool.not_false, hl,
      bind, Except.bind, Bool.false_eq_true, ↓reduceIte, ← hn]
    cases mode.ownerWrites <;> rfl

/-- A file that is opened afresh is empty and can be opened again, unless its name leads to a
device. -/
theorem created {hd : Handle} (hok : t.openFile cwd p .afresh m = .ok (t', hd))
    (hm : m.ownerWrites = true) :
    (∃ l room, t' = t ∧ t.spot cwd p = .ok (l, some (.device room))) ∨
      ∃ k l mode, hd = .file k (some 0) ∧ t'.spot cwd p = .ok (l, some (.file k mode [])) ∧
        mode.ownerWrites = true := by
  obtain ⟨l, there, hl, ho⟩ := openFile_ok hok
  have hspot : t.spot cwd p = .ok (l, t.node? l) := spot_ok.mpr ⟨⟨there, hl⟩, rfl⟩
  cases ho with
  | @file k mode old hn =>
    rw [hn] at hspot
    have hwrites := openFile_isOk (openFile_whole hok) hspot .afresh m
    rw [hok] at hwrites
    have hemptied := spot_mapContents k (fun _ => []) hspot
    exact .inr ⟨k, l, mode, rfl, by simpa [Node.rewrite] using hemptied, hwrites.symm⟩
  | @device room hn => exact .inl ⟨l, room, rfl, hn ▸ hspot⟩
  | made hn =>
    have hends : Ends (t.node? l) := by
      rw [hn]
      intro n hn'
      cases hn'
    rw [hn] at hspot
    have hmade := spot_elsewhere (q := l)
      (u := { t.put l (.file t.serial m []) with serial := t.serial + 1 })
      (fun l₁ hl₁ => by rw [node?_serial, node?_put, if_neg hl₁]) hends
      (by rw [node?_serial, node?_put, if_pos rfl]; exact Plain.ends (plain_file _ _ _)) hspot
    rw [node?_serial, node?_put, if_pos rfl] at hmade
    exact .inr ⟨t.serial, l, m, rfl, hmade, hm⟩

namespace Apart

/-- A name that is opened afresh leads to an empty file, which the handle writes from its start. -/
theorem openFile (h : t.Apart cwd names) (hp : p ∈ names) {hd : Handle}
    (hok : t.openFile cwd p .afresh m = .ok (t', hd)) :
    ∃ k, hd = .file k (some 0) ∧ Wrote t t' cwd names p k [] := by
  obtain ⟨l, there, hl, ho⟩ := openFile_ok hok
  have hspot : t.spot cwd p = .ok (l, t.node? l) := spot_ok.mpr ⟨⟨there, hl⟩, rfl⟩
  obtain ⟨l', o, hspot', hplain⟩ := h.plain p hp
  rw [hspot] at hspot'
  cases hspot'
  have hsound := h.sound.opened ho
  cases ho with
  | @file k m' old hn =>
    rw [hn] at hspot
    exact ⟨k, rfl, h.mapContents hp hspot fun _ => []⟩
  | device hn =>
    cases hplain _ hn
  | made hn holder =>
    have hnew : ∀ p' l' o', t.spot cwd p' = .ok (l', o') →
        ({ t.put l (.file t.serial m []) with serial := t.serial + 1 } : FileTree).spot cwd p' =
          .ok (l', if l' = l then some (.file t.serial m []) else o') := by
      intro p' l' o' hl'
      have hput := spot_elsewhere (q := l)
        (u := { t.put l (.file t.serial m []) with serial := t.serial + 1 })
        (fun l₁ hl₁ => by rw [node?_serial, node?_put, if_neg hl₁]) hplain.ends
        (by rw [node?_serial, node?_put, if_pos rfl]; exact Plain.ends (plain_file _ _ _)) hl'
      rw [hput, node?_serial, node?_put, ← (spot_ok.mp hl').2]
    refine ⟨t.serial, rfl, h.wrote hp hsound hspot (m := m) ?_ ?_ ?_⟩
    · rw [hnew p l _ hspot, if_pos rfl]
    · intro p' hp' hne
      obtain ⟨l', o', hl', -⟩ := h.plain p' hp'
      rw [hnew p' l' o' hl', hl', if_neg (h.places p' hp' p hp hne l' o' l _ hl' hspot)]
    · intro p' _ _ l' n hl' hk
      have hn' := (spot_ok.mp hl').2
      cases n with
      | file s m' c =>
        have hlt := h.sound.fresh l' s m' c hn'.symm
        cases hk
        exact Nat.lt_irrefl _ hlt
      | _ => cases hk

/-- A file that is opened again is as it was, and the handle writes at its end. -/
theorem reopenFile (hfile : t.spot cwd p = .ok (l, some (.file k m c))) {m' : Mode} {hd : Handle}
    (hok : t.openFile cwd p .append m' = .ok (t', hd)) : t' = t ∧ hd = .file k none := by
  obtain ⟨l', there, hl, ho⟩ := openFile_ok hok
  have hspot : t.spot cwd p = .ok (l', t.node? l') := spot_ok.mpr ⟨⟨there, hl⟩, rfl⟩
  rw [hfile] at hspot
  injection hspot with hspot
  injection hspot with hl' hn
  subst hl'
  cases ho with
  | file hn' =>
    rw [hn'] at hn
    cases hn
    exact ⟨rfl, rfl⟩
  | device hn' =>
    rw [hn'] at hn
    cases hn
  | made hn' =>
    rw [hn'] at hn
    cases hn

theorem writeFile (h : t.Apart cwd names) (hp : p ∈ names) {bytes : Bytes}
    (hok : t.writeFile cwd p bytes = .ok t') : ∃ k, Wrote t t' cwd names p k bytes := by
  obtain ⟨⟨t₁, hd⟩, hopen, hok⟩ := bind_ok hok
  obtain ⟨k, rfl, hempty⟩ := h.openFile hp hopen
  obtain ⟨l, m, hfile⟩ := hempty.here
  have hfull := hempty.apart.mapContents hp hfile fun old => overwrite old 0 bytes
  cases hok
  refine ⟨k, hempty.trans ?_⟩
  simpa [overwrite] using hfull

/-- What can be opened can be written. -/
theorem writeFile_succeeds (h : t.Apart cwd names) (hp : p ∈ names)
    (hopen : (t.openFile cwd p .afresh .newFile).isOk) (bytes : Bytes) :
    ∃ t', t.writeFile cwd p bytes = .ok t' := by
  cases hopened : t.openFile cwd p .afresh .newFile with
  | error fault =>
    rw [hopened] at hopen
    cases hopen
  | ok opened =>
    obtain ⟨k, hhandle, -⟩ := h.openFile hp hopened
    refine ⟨opened.1.mapContents k fun old => overwrite old 0 bytes, ?_⟩
    simp [FileTree.writeFile, hopened, hhandle, FileTree.write, bind, Except.bind, pure, Except.pure]

theorem setMode (h : t.Apart cwd names) (hp : p ∈ names)
    (hfile : t.spot cwd p = .ok (l, some (.file k m c))) {m' : Mode}
    (hok : t.setMode cwd p m' = .ok t') : Wrote t t' cwd names p k c := by
  have hsound : t'.Sound := h.sound.setMode hok
  obtain ⟨⟨l', n⟩, hfind, hok⟩ := bind_ok hok
  rw [find_of_spot hfile] at hfind
  cases hfind
  cases hok
  have hn := (spot_ok.mp hfile).2
  have hends : Ends (t.node? l) := hn ▸ Plain.ends (plain_file k m c)
  have hends' : Ends (some (.file k m' c)) := Plain.ends (plain_file k m' c)
  refine h.wrote hp hsound hfile (m := m') ?_ ?_ ?_
  · exact (spot_put hends hends' hfile).trans (by rw [if_pos rfl])
  · intro p' hp' hne
    obtain ⟨l', o', hl', -⟩ := h.plain p' hp'
    have hput := spot_put hends hends' hl'
    rw [if_neg (h.places p' hp' p hp hne l' o' l _ hl' hfile)] at hput
    exact hput.trans hl'.symm
  · intro p' hp' hne l' n hl'
    exact h.serials p hp p' hp' (Ne.symm hne) l _ l' n k hfile hl' rfl

/-- A copy holds what the file holds that was copied. -/
theorem copyFile {source target : Path} (h : t.Apart cwd names) (hsource : source ∈ names)
    (htarget : target ∈ names) (hne : source ≠ target)
    (hfile : t.spot cwd source = .ok (l, some (.file k m c)))
    (hok : t.copyFile cwd source target = .ok t') :
    ∃ k', Wrote t t' cwd names target k' c := by
  obtain ⟨⟨l', n⟩, hfind, hok⟩ := bind_ok hok
  rw [find_of_spot hfile] at hfind
  cases hfind
  cases hreads : m.ownerReads with
  | false =>
    simp only [hreads] at hok
    cases hok
  | true =>
    simp only [hreads] at hok
    obtain ⟨⟨t₁, hd⟩, hopen, hok⟩ := bind_ok hok
    obtain ⟨k', rfl, hempty⟩ := h.openFile htarget hopen
    have hread : t₁.read cwd source = .ok c := by
      have hkept := (hempty.others source hsource hne).trans hfile
      simp [FileTree.read, find_of_spot hkept, hreads, bind, Except.bind, pure, Except.pure]
    obtain ⟨bytes, hbytes, hok⟩ := bind_ok hok
    rw [hread] at hbytes
    cases hbytes
    obtain ⟨l₁, m₁, hfile₁⟩ := hempty.here
    have hfull := hempty.apart.mapContents htarget hfile₁ fun old => overwrite old 0 c
    obtain ⟨⟨t₂, hd₂⟩, hwrite, hok⟩ := bind_ok hok
    cases hwrite
    obtain ⟨l₂, m₂, hfile₂⟩ := hfull.here
    have hmode := hfull.apart.setMode htarget hfile₂ hok
    refine ⟨k', (hempty.trans hfull).trans ?_⟩
    simpa [overwrite] using hmode

/-- What is removed under one name is gone from there, and the others lead where they led. -/
theorem removeFile (h : t.Apart cwd names) (hp : p ∈ names) (hok : t.removeFile cwd p = .ok t') :
    t'.Vacant cwd p ∧ t'.Apart cwd names ∧
      ∀ p' ∈ names, p' ≠ p → t'.spot cwd p' = t.spot cwd p' := by
  obtain ⟨l, o, hl, hplain⟩ := h.plain p hp
  obtain ⟨l₁, hgone, hkept⟩ := spot_removeFile h.sound hok hl hplain.ends
  have hothers : ∀ p' ∈ names, p' ≠ p → ∀ l' o', t.spot cwd p' = .ok (l', o') →
      t'.spot cwd p' = .ok (l', o') ∧ l' ≠ l₁ := by
    intro p' hp' hne l' o' hl'
    obtain ⟨l'', o'', hl'', hplain'⟩ := h.plain p' hp'
    rw [hl''] at hl'
    cases hl'
    exact hkept p' l' o' hl'' hplain'.ends (h.places p' hp' p hp hne l' o' l o hl'' hl)
  have hsame : ∀ p' ∈ names, p' ≠ p → t'.spot cwd p' = t.spot cwd p' := by
    intro p' hp' hne
    obtain ⟨l', o', hl', -⟩ := h.plain p' hp'
    rw [(hothers p' hp' hne l' o' hl').1, hl']
  refine ⟨⟨l₁, hgone⟩, h.moved (h.sound.removeFile hok) hgone ?_ hsame ?_ ?_, hsame⟩
  · intro n hn
    cases hn
  · intro p' hp' hne l' o' hl'
    exact (hothers p' hp' hne l' o' hl').2
  · intro p' _ _ l' n' n k _ hn
    cases hn

end Apart

end FileTree

end Regression
