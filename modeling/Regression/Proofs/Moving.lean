import Regression.Proofs.Neighbours
import Regression.Proofs.Publishing
import Regression.Proofs.Siblings

namespace Regression

open Text (Bytes)

theorem Node.serial?_rewrite (k : Nat) (f : Bytes → Bytes) (n : Node) :
    (n.rewrite k f).serial? = n.serial? := by
  cases n with
  | file s m c =>
    simp only [Node.rewrite]
    split <;> rfl
  | _ => rfl

namespace FileTree

variable {t t' : FileTree} {cwd l l' q dead : Location} {p source target : Path} {k : Nat}
  {m : Mode} {c : Bytes}

/-- No other place holds the file that lies here. -/
def Single (t : FileTree) (l : Location) : Prop :=
  ∀ n k, t.node? l = some n → n.serial? = some k → ∀ l' n', t.node? l' = some n' →
    n'.serial? = some k → l' = l

namespace Single

theorem mapContents (h : t.Single q) (k : Nat) (f : Bytes → Bytes) : (t.mapContents k f).Single q := by
  intro n k' hn hk l' n' hn' hk'
  rw [node?_mapContents] at hn hn'
  obtain ⟨n₀, hn₀, rfl⟩ := Option.map_eq_some_iff.mp hn
  obtain ⟨n₀', hn₀', rfl⟩ := Option.map_eq_some_iff.mp hn'
  rw [Node.serial?_rewrite] at hk hk'
  exact h n₀ k' hn₀ hk l' n₀' hn₀' hk'

/-- What is written to a file changes nothing at other places. -/
theorem node?_mapContents (h : t.Single q) (hq : t.node? q = some (.file k m c)) (hne : l ≠ q)
    (f : Bytes → Bytes) : (t.mapContents k f).node? l = t.node? l := by
  rw [FileTree.node?_mapContents]
  cases hn : t.node? l with
  | none => rfl
  | some n =>
    cases n with
    | file s m' c' =>
      have hs : s ≠ k := by
        rintro rfl
        exact hne (h _ s hq rfl l _ hn rfl)
      simp [Node.rewrite, hs]
    | _ => rfl

/-- An edit at one place leaves no file in two places that was in one. -/
theorem touched (h : t.Single l) (htouched : Touched t t' q dead) (hq : t'.Single q) (hne : l ≠ q) :
    t'.Single l := by
  intro n k hn hk l' n' hn' hk'
  by_cases hl' : l' = q
  · subst hl'
    exact absurd (hq n' k hn' hk' l n hn hk) hne
  · rw [htouched.same l hne] at hn
    rw [htouched.same l' hl'] at hn'
    exact h n k hn hk l' n' hn' hk'

theorem put {n n₀ : Node} (h : t.Single q) (hn₀ : t.node? q = some n₀)
    (hserial : n.serial? = n₀.serial?) : (t.put q n).Single q := by
  intro n' k hn' hk l' n'' hl' hk'
  rw [node?_put, if_pos rfl] at hn'
  cases hn'
  rw [node?_put] at hl'
  split at hl'
  · assumption
  · exact h n₀ k hn₀ (hserial ▸ hk) l' n'' hl' hk'

end Single

theorem ends_device (room : Option Nat) : Ends (some (.device room)) := by
  intro n hn
  cases hn
  exact ⟨rfl, rfl⟩

theorem single_free (h : t.node? q = none) : t.Single q := by
  intro n k hn
  rw [h] at hn
  cases hn

theorem single_device {room : Option Nat} (h : t.node? q = some (.device room)) : t.Single q := by
  intro n k hn hk
  rw [h] at hn
  cases hn
  cases hk

/-- A device takes in what is written to it and stays a device. -/
theorem write_device {room : Option Nat} {hd : Handle} (hq : t.node? q = some (.device room))
    (hok : t.write (.device q) c = .ok (t', hd)) :
    ∃ room', t'.node? q = some (.device room') ∧ ∀ l, l ≠ q → t'.node? l = t.node? l := by
  cases room with
  | none =>
    simp only [write, hq] at hok
    cases hok
    exact ⟨none, hq, fun _ _ => rfl⟩
  | some room =>
    simp only [write, hq] at hok
    split at hok
    · cases hok
      exact ⟨_, by rw [node?_put, if_pos rfl], fun l hl => by rw [node?_put, if_neg hl]⟩
    · cases hok

/-- What is opened afresh is an empty file in one place, or a device. -/
theorem openFile_touched {hd : Handle} (ht : t.Sound) (hok : t.openFile cwd target .afresh m = .ok (t', hd))
    (hsingle : ∀ q o, t.spot cwd target = .ok (q, o) → t.Single q) :
    ∃ q o, t.spot cwd target = .ok (q, o) ∧ Touched t t' q q ∧ t'.Single q ∧
      ((∃ k mode, hd = .file k (some 0) ∧ t'.node? q = some (.file k mode [])) ∨
        ∃ room, hd = .device q ∧ t' = t ∧ o = some (.device room)) := by
  obtain ⟨q, there, hl, ho⟩ := openFile_ok hok
  have hspot : t.spot cwd target = .ok (q, t.node? q) := spot_ok.mpr ⟨⟨there, hl⟩, rfl⟩
  have hq := hsingle q _ hspot
  refine ⟨q, _, hspot, ?_⟩
  cases ho with
  | @file k mode old hn =>
    have hempty : (t.mapContents k fun _ => []).node? q = some (.file k mode []) := by
      simp [FileTree.node?_mapContents, hn, Node.rewrite]
    refine ⟨⟨fun l hl => hq.node?_mapContents hn hl _, ?_, .inl ⟨?_, rfl⟩⟩, hq.mapContents _ _,
      .inl ⟨k, mode, rfl, hempty⟩⟩
    · rw [if_pos rfl, hempty]
      exact (plain_file _ _ _).ends
    · rw [hn]
      exact (plain_file _ _ _).ends
  | @device room hn =>
    have hends : Ends (t.node? q) := hn ▸ ends_device room
    exact ⟨⟨fun _ _ => rfl, hends, .inl ⟨hends, rfl⟩⟩, hq, .inr ⟨room, rfl, rfl, hn⟩⟩
  | made hn holder =>
    have hmade : ({ t.put q (.file t.serial m []) with serial := t.serial + 1 } : FileTree).node? q =
        some (.file t.serial m []) := by
      rw [node?_serial, node?_put, if_pos rfl]
    refine ⟨⟨fun l hl => ?_, ?_, .inl ⟨?_, rfl⟩⟩, ?_, .inl ⟨_, m, rfl, hmade⟩⟩
    · rw [node?_serial, node?_put, if_neg hl]
    · rw [hmade]
      exact (plain_file _ _ _).ends
    · rw [hn]
      intro n hn'
      cases hn'
    · intro n k hn' hk l' n' hl' hk'
      rw [hmade] at hn'
      cases hn'
      cases hk
      rw [node?_serial, node?_put] at hl'
      split at hl'
      · assumption
      · -- A serial number is not given twice.
        cases n' with
        | file s m' c' =>
          have hlt := ht.fresh l' s m' c' hl'
          cases hk'
          exact absurd hlt (Nat.lt_irrefl _)
        | _ => cases hk'

/-- A copy fills one place, and the file that was copied can be read all the while. -/
theorem copyFile_touched (ht : t.Sound) (hsource : t.spot cwd source = .ok (l, some (.file k m c)))
    (hsingle : ∀ q o, t.spot cwd target = .ok (q, o) → t.Single q)
    (hapart : ∀ q o, t.spot cwd target = .ok (q, o) → l ≠ q)
    (hok : t.copyFile cwd source target = .ok t') :
    ∃ q o, t.spot cwd target = .ok (q, o) ∧ Touched t t' q q ∧ t'.Single q ∧
      ((∃ k', t'.node? q = some (.file k' m c)) ∨
        ∃ room room', o = some (.device room) ∧ t'.node? q = some (.device room')) := by
  obtain ⟨⟨l', n⟩, hfind, hok⟩ := bind_ok hok
  rw [find_of_spot hsource] at hfind
  cases hfind
  simp only at hok
  split at hok
  · cases hok
  obtain ⟨⟨t₁, hd⟩, hopen, hcopy⟩ := bind_ok hok
  obtain ⟨q, o, hspot, htouched, hq, hhandle⟩ := openFile_touched ht hopen hsingle
  obtain ⟨bytes, hread, hcopy⟩ := bind_ok hcopy
  have hkept := (htouched.spot hsource (plain_file k m c).ends (hapart q o hspot)).1
  obtain rfl := read_file hkept hread
  obtain ⟨⟨t₂, hd₂⟩, hwrite, hlast⟩ := bind_ok hcopy
  have hends : Ends (t.node? q) := by
    rcases htouched.before with ⟨hends, -⟩ | ⟨-, -, -, -, -, -, hends⟩
    · exact hends
    · exact hends
  refine ⟨q, o, hspot, ?_⟩
  rcases hhandle with ⟨k₁, mode, rfl, hempty⟩ | ⟨room, rfl, rfl, ho⟩
  · cases hwrite
    obtain ⟨⟨q', n'⟩, hfind, hset⟩ := bind_ok hlast
    have hfull : (t₁.mapContents k₁ fun old => overwrite old 0 bytes).node? q =
        some (.file k₁ mode bytes) := by
      simp [node?_mapContents, hempty, Node.rewrite, overwrite]
    have hsame : ∀ l', l' ≠ q →
        (t₁.mapContents k₁ fun old => overwrite old 0 bytes).node? l' = t.node? l' := fun l' hl' =>
      (hq.node?_mapContents hempty hl' _).trans (htouched.same l' hl')
    have hthere := spot_elsewhere hsame hends (hfull ▸ (plain_file _ _ _).ends) hspot
    rw [hfull] at hthere
    rw [find_of_spot hthere] at hfind
    cases hfind
    have hput : t' = (t₁.mapContents k₁ fun old => overwrite old 0 bytes).put q
        (.file k₁ m bytes) := (Except.ok.inj hset).symm
    have hhere : t'.node? q = some (.file k₁ m bytes) := by rw [hput, node?_put, if_pos rfl]
    refine ⟨⟨fun l' hl' => ?_, hhere ▸ (plain_file _ _ _).ends, .inl ⟨hends, rfl⟩⟩, ?_,
      .inl ⟨k₁, hhere⟩⟩
    · rw [hput, node?_put, if_neg hl']
      exact hsame l' hl'
    · rw [hput]
      exact (hq.mapContents _ _).put hfull rfl
  · have ht' : t₂ = t' := Except.ok.inj hlast
    subst ht'
    have hdevice : t₁.node? q = some (.device room) := (spot_ok.mp hspot).2 ▸ ho
    obtain ⟨room', hq', hsame⟩ := write_device hdevice hwrite
    exact ⟨⟨hsame, hq' ▸ ends_device room', .inl ⟨hends, rfl⟩⟩, single_device hq',
      .inr ⟨room, room', ho, hq'⟩⟩

/-- A name that is free, or names a file or a device that has no other. -/
def Unshared (t : FileTree) (cwd : Location) (p : Path) : Prop :=
  ∀ l n, t.findItself cwd p = .ok (l, n) → n.isDirectory = false ∧ n.isLink = false ∧ t.Single l

/-- Two paths lead to different places. -/
def Parted (t : FileTree) (cwd : Location) (p p' : Path) : Prop :=
  ∀ l o l' o', t.spot cwd p = .ok (l, o) → t.spot cwd p' = .ok (l', o') → l ≠ l'

theorem spot_of_isFile (h : t.isFile cwd p = true) :
    ∃ l k m c, t.spot cwd p = .ok (l, some (.file k m c)) := by
  unfold isFile at h
  split at h
  · next l n hfind =>
    cases n with
    | file k m c => exact ⟨l, k, m, c, spot_of_find hfind⟩
    | _ => cases h
  · cases h

/-- What becomes of a file that is published: if the names differ and it is a regular file, links
followed, its name is gone and the other one names a file with its contents, or the device that it
has named. Otherwise both names are left as they are. -/
structure Moved (t t' : FileTree) (cwd : Location) (source target : Path) : Prop where
  moves : source.same target = false → ∀ l k m c, t.find cwd source = .ok (l, .file k m c) →
    t'.findItself cwd source = .error .notFound ∧ ∃ l' n, t'.findItself cwd target = .ok (l', n) ∧
      ((∃ k', n = .file k' m c) ∨
        ∃ room room', t.findItself cwd target = .ok (l', .device room) ∧ n = .device room')
  stays : source.same target = true ∨ t.isFile cwd source = false →
    t'.findItself cwd source = t.findItself cwd source ∧
      t'.findItself cwd target = t.findItself cwd target

theorem Moved.refl (t : FileTree) (cwd : Location)
    (h : source.same target = true ∨ t.isFile cwd source = false) : Moved t t cwd source target := by
  refine ⟨fun hdiffer l k m c hfind => ?_, fun _ => ⟨rfl, rfl⟩⟩
  rcases h with hsame | hfile
  · rw [hdiffer] at hsame
    cases hsame
  · simp [isFile, hfind, Node.isFile] at hfile

namespace Moved

variable {t₁ : FileTree}

/-- The file may have been left alone before. -/
theorem before (h : Moved t₁ t' cwd source target) (hfile : t₁.isFile cwd source = t.isFile cwd source)
    (hfind : ∀ l k m c, t.find cwd source = .ok (l, .file k m c) →
      t₁.find cwd source = .ok (l, .file k m c))
    (hsource : t₁.findItself cwd source = t.findItself cwd source)
    (htarget : t₁.findItself cwd target = t.findItself cwd target) : Moved t t' cwd source target := by
  refine ⟨fun hdiffer l k m c hfile => ?_, fun hstays => ?_⟩
  · rw [← htarget]
    exact h.moves hdiffer l k m c (hfind l k m c hfile)
  · rw [← hsource, ← htarget]
    exact h.stays (hfile ▸ hstays)

/-- What has become of it may be left alone from then on. -/
theorem after (h : Moved t t₁ cwd source target)
    (hsource : t'.findItself cwd source = t₁.findItself cwd source)
    (htarget : t'.findItself cwd target = t₁.findItself cwd target) : Moved t t' cwd source target := by
  refine ⟨fun hdiffer l k m c hfile => ?_, fun hstays => ?_⟩
  · rw [hsource, htarget]
    exact h.moves hdiffer l k m c hfile
  · rw [hsource, htarget]
    exact h.stays hstays

end Moved

section

variable {text w e e' : String} {front : List String} {d : Location} {dm : Mode}

/-- What publishing a file keeps of a directory with both of its names, which end in `e` and in
`e'`. -/
structure Passed (t t' : FileTree) (cwd : Location) (text w : String) (front : List String)
    (d : Location) (dm : Mode) (e e' : String) : Prop where
  sound : t'.Sound
  holder : Holder t' cwd text front d dm
  changed : ∀ l, t'.node? l ≠ t.node? l →
    l = (w ++ e) :: d ∧ Passes dm text w e ∨ l = (w ++ e') :: d ∧ Passes dm text w e'
  single : ∀ l, l ≠ (w ++ e') :: d → t.Single l → t'.Single l
  spot : ∀ p l n, t.spot cwd p = .ok (l, some n) → Ends (some n) →
    t.Parted cwd p ⟨text ++ e⟩ → t.Parted cwd p ⟨text ++ e'⟩ → t'.spot cwd p = .ok (l, some n)
  back : ∀ p l n, t'.spot cwd p = .ok (l, some n) → t.Parted cwd p ⟨text ++ e'⟩ →
    t.spot cwd p = .ok (l, some n)

theorem Passed.refl (hs : t.Sound) (h : Holder t cwd text front d dm) :
    Passed t t cwd text w front d dm e e' :=
  ⟨hs, h, fun _ hl => absurd rfl hl, fun _ _ hl => hl, fun _ _ _ hp _ _ _ => hp,
    fun _ _ _ hp _ => hp⟩

section

variable {e'' : String} (hp : Passed t t' cwd text w front d dm e e')
  (h : Holder t cwd text front d dm)
  (hsteps : ∀ e, Path.IsEnding e → steps ⟨text ++ e⟩ = front ++ [w ++ e])
  (he'' : Path.IsEnding e'') (hne : e'' ≠ e) (hne' : e'' ≠ e')
include hp h hsteps he'' hne hne'

/-- The other names in the directory name what they have named. -/
theorem Passed.findItself : t'.findItself cwd ⟨text ++ e''⟩ = t.findItself cwd ⟨text ++ e''⟩ := by
  refine h.findItself_congr hsteps hp.holder he'' ?_
  by_contra hl
  rcases hp.changed _ hl with ⟨he, -⟩ | ⟨he, -⟩
  · exact hne (String.append_right_inj _ |>.mp (List.cons.inj he).1)
  · exact hne' (String.append_right_inj _ |>.mp (List.cons.inj he).1)

theorem Passed.unshared (hu : t.Unshared cwd ⟨text ++ e''⟩) : t'.Unshared cwd ⟨text ++ e''⟩ := by
  intro l n hfind
  obtain ⟨rfl, -, -⟩ := hp.holder.findItself_ok hsteps he'' hfind
  rw [hp.findItself h hsteps he'' hne hne'] at hfind
  obtain ⟨hdirectory, hlink, hsingle⟩ := hu _ _ hfind
  refine ⟨hdirectory, hlink, hp.single _ (fun he => hne' ?_) hsingle⟩
  exact String.append_right_inj _ |>.mp (List.cons.inj he).1

end

theorem Passed.isFile (hp : Passed t t' cwd text w front d dm e e')
    (hs : t.Parted cwd p ⟨text ++ e⟩) (ht : t.Parted cwd p ⟨text ++ e'⟩) :
    t'.isFile cwd p = t.isFile cwd p := by
  rw [Bool.eq_iff_iff]
  constructor
  · intro hfile
    obtain ⟨l, k, m, c, hspot⟩ := spot_of_isFile hfile
    simp [FileTree.isFile, find_of_spot (hp.back p l _ hspot ht), Node.isFile]
  · intro hfile
    obtain ⟨l, k, m, c, hspot⟩ := spot_of_isFile hfile
    simp [FileTree.isFile, find_of_spot (hp.spot p l _ hspot (plain_file k m c).ends hs ht),
      Node.isFile]

/-- Whatever is no place of either name is left alone. -/
theorem Passed.elsewhere {t₀ : FileTree} (hp : Passed t t' cwd text w front d dm e e')
    (h : Holder t₀ cwd text front d dm)
    (hsteps : ∀ e, Path.IsEnding e → steps ⟨text ++ e⟩ = front ++ [w ++ e])
    (he : Path.IsEnding e) (he' : Path.IsEnding e')
    (hl : ∀ there, t₀.locate false cwd ⟨text ++ e⟩ ≠ .ok (l, there))
    (hl' : ∀ there, t₀.locate false cwd ⟨text ++ e'⟩ ≠ .ok (l, there)) : t'.node? l = t.node? l := by
  have hplace : ∀ e, Path.IsEnding e → Passes dm text w e →
      ∃ there, t₀.locate false cwd ⟨text ++ e⟩ = .ok ((w ++ e) :: d, there) := by
    intro e he hpasses
    refine ⟨(t₀.node? ((w ++ e) :: d)).isSome, ?_⟩
    rw [h.locate hsteps he fun _ _ => rfl, hpasses.path, hpasses.name]
    rfl
  by_contra hchanged
  rcases hp.changed l hchanged with ⟨rfl, hpasses⟩ | ⟨rfl, hpasses⟩
  · obtain ⟨there, hplace⟩ := hplace e he hpasses
    exact hl there hplace
  · obtain ⟨there, hplace⟩ := hplace e' he' hpasses
    exact hl' there hplace

section

variable (hp : t.Unshared cwd ⟨text ++ e⟩) (h : Holder t cwd text front d dm)
  (hsteps : ∀ e, Path.IsEnding e → steps ⟨text ++ e⟩ = front ++ [w ++ e]) (he : Path.IsEnding e)
include hp h hsteps he

/-- A free or unshared name leads to its place. -/
theorem Unshared.spot (hpasses : Passes dm text w e) :
    t.spot cwd ⟨text ++ e⟩ = .ok ((w ++ e) :: d, t.node? ((w ++ e) :: d)) := by
  refine h.spot hsteps he hpasses fun target hn => ?_
  have hitself := h.findItself hsteps he hpasses
  rw [hn] at hitself
  exact absurd (hp _ _ hitself).2.1 (by simp [Node.isLink])

theorem Unshared.place {o : Option Node} (hspot : t.spot cwd ⟨text ++ e⟩ = .ok (q, o)) :
    q = (w ++ e) :: d ∧ t.Single q ∧ Passes dm text w e := by
  obtain ⟨⟨there, hl⟩, -⟩ := spot_ok.mp hspot
  have hpasses := h.passes hsteps he hl
  rw [hp.spot h hsteps he hpasses] at hspot
  cases hspot
  refine ⟨rfl, ?_, hpasses⟩
  have hitself := h.findItself hsteps he hpasses
  cases hn : t.node? ((w ++ e) :: d) with
  | none => exact single_free hn
  | some n =>
    rw [hn] at hitself
    exact (hp _ _ hitself).2.2

end

/-- What a file that is moved within a directory leaves behind. -/
theorem copied_passed {t₁ t₂ : FileTree} (hs : t.Sound) (h : Holder t cwd text front d dm)
    (hsteps : ∀ e, Path.IsEnding e → steps ⟨text ++ e⟩ = front ++ [w ++ e])
    (he : Path.IsEnding e) (he' : Path.IsEnding e') (hne : e ≠ e')
    (hfile : t.spot cwd ⟨text ++ e⟩ = .ok (l, some (.file k m c)))
    (hfinal : t.Unshared cwd ⟨text ++ e'⟩)
    (hapart : ∀ q o, t.spot cwd ⟨text ++ e'⟩ = .ok (q, o) → l ≠ q)
    (hcopy : t.copyFile cwd ⟨text ++ e⟩ ⟨text ++ e'⟩ = .ok t₁)
    (hremove : t₁.removeFile cwd ⟨text ++ e⟩ = .ok t₂) :
    Passed t t₂ cwd text w front d dm e e' ∧ Moved t t₂ cwd ⟨text ++ e⟩ ⟨text ++ e'⟩ ∧
      t₂.isFile cwd ⟨text ++ e⟩ = false := by
  obtain ⟨q, o, hspot, hcopied, hq, hhere⟩ :=
    copyFile_touched hs hfile (fun q o hp => (hfinal.place h hsteps he' hp).2.1) hapart hcopy
  obtain ⟨rfl, -, hpasses'⟩ := hfinal.place h hsteps he' hspot
  have hs₁ := hs.copyFile hcopy
  have h₁ := h.touched hcopied
  have hfile₁ := (hcopied.spot hfile (plain_file k m c).ends (hapart _ o hspot)).1
  obtain ⟨q₂, n, hfind, hgone, hremoved⟩ :=
    removeFile_touched hs₁ hremove hfile₁ (plain_file k m c).ends
  obtain ⟨rfl, -, hpasses⟩ := h₁.findItself_ok hsteps he hfind
  have h₂ := h₁.touched hremoved
  have hplaces : (w ++ e') :: d ≠ (w ++ e) :: d := by
    simpa [String.append_right_inj] using hne.symm
  have hkept : t₂.node? ((w ++ e') :: d) = t₁.node? ((w ++ e') :: d) := hremoved.same _ hplaces
  have hvacant := h₂.findItself hsteps he hpasses
  rw [hgone] at hvacant
  refine ⟨⟨hs₁.removeFile hremove, h₂, fun l' hl' => ?_, fun l' hl' hsingle => ?_,
    fun p l' n hp hends hs ht => ?_, fun p l' n hp ht => ?_⟩, ⟨fun _ l' k' m' c' hfind' => ?_,
    fun hstays => ?_⟩, ?_⟩
  · by_cases hsource : l' = (w ++ e) :: d
    · exact .inl ⟨hsource, hpasses⟩
    · by_cases htarget : l' = (w ++ e') :: d
      · exact .inr ⟨htarget, hpasses'⟩
      · exact absurd ((hremoved.same l' hsource).trans (hcopied.same l' htarget)) hl'
  · by_cases hsource : l' = (w ++ e) :: d
    · exact hsource ▸ single_free hgone
    · exact (hsingle.touched hcopied hq hl').touched hremoved (single_free hgone) hsource
  · have hp₁ := (hcopied.spot hp hends (ht _ _ _ _ hp hspot)).1
    exact (hremoved.spot hp₁ hends (hs _ _ _ _ hp hfile)).1
  · have hn := (spot_ok.mp hp).2
    have hsource : l' ≠ (w ++ e) :: d := by
      rintro rfl
      rw [hgone] at hn
      cases hn
    have hp₁ := hremoved.spot_back hp
    rw [← hremoved.same l' hsource, ← hn] at hp₁
    have hp₀ := hcopied.spot_back hp₁
    rw [hp₀, (spot_ok.mp hp₁).2, hcopied.same l' (ht _ _ _ _ hp₀ hspot)]
  · have hfile' := spot_of_find hfind'
    rw [hfile] at hfile'
    cases hfile'
    refine ⟨hvacant, (w ++ e') :: d, ?_⟩
    have htarget := h₂.findItself hsteps he' hpasses'
    rw [hkept] at htarget
    rcases hhere with ⟨k', hn⟩ | ⟨room, room', ho, hn⟩
    · rw [hn] at htarget
      exact ⟨_, htarget, .inl ⟨k', rfl⟩⟩
    · have hbefore := h.findItself hsteps he' hpasses'
      rw [← (spot_ok.mp hspot).2, ho] at hbefore
      rw [hn] at htarget
      exact ⟨_, htarget, .inr ⟨room, room', hbefore, rfl⟩⟩
  · rcases hstays with hsame | hnofile
    · rw [Path.same_ending text he.whole he.long he'.whole he'.long hne] at hsame
      cases hsame
    · simp [isFile, find_of_spot hfile, Node.isFile] at hnofile
  · have hspot₂ := h₂.spot hsteps he hpasses (by simp [hgone])
    rw [hgone] at hspot₂
    simp [isFile, find_of_spot_none hspot₂]

end

/-- Whether no other entry holds the file that lies here. -/
def isSingle (t : FileTree) (l : Location) : Bool :=
  t.entries.all fun e =>
    e.1 == l || ((t.node? l).bind Node.serial?).all fun k => e.2.serial? != some k

def isUnshared (t : FileTree) (cwd : Location) (p : Path) : Bool :=
  match t.findItself cwd p with
  | .ok (l, n) => !n.isDirectory && !n.isLink && t.isSingle l
  | .error _ => true

def areParted (t : FileTree) (cwd : Location) (p p' : Path) : Bool :=
  match t.spot cwd p, t.spot cwd p' with
  | .ok (l, _), .ok (l', _) => l != l'
  | _, _ => true

theorem single_of_isSingle (h : t.isSingle l = true) : t.Single l := by
  intro n k hn hk l' n' hn' hk'
  obtain ⟨before, after, hentries, -⟩ := List.lookup_eq_some_iff.mp hn'
  have hchecked := List.all_eq_true.mp h (l', n') (by rw [hentries]; simp)
  simpa [hn, hk, hk'] using hchecked

theorem unshared_of_isUnshared (h : t.isUnshared cwd p = true) : t.Unshared cwd p := by
  intro l n hfind
  simp only [isUnshared, hfind, Bool.and_eq_true, Bool.not_eq_true'] at h
  exact ⟨h.1.1, h.1.2, single_of_isSingle h.2⟩

theorem parted_of_areParted {p' : Path} (h : t.areParted cwd p p' = true) : t.Parted cwd p p' := by
  intro l o l' o' hl hl'
  simpa [areParted, hl, hl'] using h

end FileTree

theorem Slot.isEnding (slot : Slot) (process : Bool → Nat) : Path.IsEnding (slot.ending process) :=
  ⟨(slot.ending_letters process).1, (slot.ending_letters process).2.1⟩

namespace LogFiles

open FileTree

variable {f : LogFiles} {m m' : Machine} {source target : Path}

section

variable {text w e e' : String} {front : List String} {d : Location} {dm : Mode}

/-- Publishing one file moves it or leaves it, and keeps what else lies in the directory. -/
theorem publishOne_passes (hs : m.files.Sound) (h : Holder m.files m.directory text front d dm)
    (hsteps : ∀ e, Path.IsEnding e → steps ⟨text ++ e⟩ = front ++ [w ++ e])
    (he : Path.IsEnding e) (he' : Path.IsEnding e') (hne : e ≠ e')
    (hfinal : m.files.Unshared m.directory ⟨text ++ e'⟩)
    (hapart : ∀ l n q o, m.files.spot m.directory ⟨text ++ e⟩ = .ok (l, some n) →
      m.files.spot m.directory ⟨text ++ e'⟩ = .ok (q, o) → l ≠ q)
    (hok : (publishOne ⟨text ++ e⟩ ⟨text ++ e'⟩).on m = (.ok (), m')) :
    ∃ t', m' = { m with files := t' } ∧ Passed m.files t' m.directory text w front d dm e e' ∧
      Moved m.files t' m.directory ⟨text ++ e⟩ ⟨text ++ e'⟩ ∧
      t'.isFile m.directory ⟨text ++ e⟩ = false ∧
      (m.isFile ⟨text ++ e⟩ = false → t' = m.files) := by
  cases hfile : m.isFile ⟨text ++ e⟩ with
  | false =>
    rw [publishOne_idle (.inr hfile)] at hok
    cases hok
    exact ⟨m.files, rfl, .refl hs h, .refl _ _ (.inr hfile), hfile, fun _ => rfl⟩
  | true =>
    have hdiffer := Path.same_ending text he.whole he.long he'.whole he'.long hne
    obtain ⟨t₁, t₂, hcopy, hremove, rfl⟩ := publishOne_edits hdiffer hfile hok
    obtain ⟨l, k, mode, c, hspot⟩ := spot_of_isFile hfile
    obtain ⟨hpassed, hmoved, hgone⟩ := copied_passed hs h hsteps he he' hne hspot hfinal
      (fun q o hq => hapart l _ q o hspot hq) hcopy hremove
    exact ⟨t₂, rfl, hpassed, hmoved, hgone, fun hno => by cases hno⟩

end

/-- How the files may lie for a session to publish: its final names are free or unshared, and a name
of the process that is a link leads to none of the other names. -/
structure Clear (f : LogFiles) (t : FileTree) (cwd : Location) : Prop where
  final : ∀ p ∈ [f.logFile, f.summaryFile], t.Unshared cwd p
  link : ∀ p ∈ [f.tmpLogFile, f.tmpSummaryFile], ∀ l target,
    t.findItself cwd p = .ok (l, .link target) → ∀ p' ∈ f.names, p' ≠ p → t.Parted cwd p p'

/-- Whether they lie so, name by name. -/
def isClear (f : LogFiles) (t : FileTree) (cwd : Location) : Bool :=
  [f.logFile, f.summaryFile].all (t.isUnshared cwd) &&
    [f.tmpLogFile, f.tmpSummaryFile].all fun p =>
      match t.findItself cwd p with
      | .ok (_, .link _) => f.names.all fun p' => p' == p || t.areParted cwd p p'
      | _ => true

theorem clear_of_isClear {t : FileTree} {cwd : Location} (h : f.isClear t cwd = true) :
    f.Clear t cwd := by
  obtain ⟨hfinal, hlink⟩ := Bool.and_eq_true_iff.mp h
  refine ⟨fun p hp => unshared_of_isUnshared (List.all_eq_true.mp hfinal p hp), ?_⟩
  intro p hp l target hfind p' hp' hne
  have hchecked := List.all_eq_true.mp hlink p hp
  rw [hfind] at hchecked
  have hother := List.all_eq_true.mp hchecked p' hp'
  exact parted_of_areParted (by simpa [hne] using hother)

/-- What publishing does. -/
structure Moves (f : LogFiles) (m m' : Machine) : Prop where
  machine : m' = { m with files := m'.files }
  log : m.files.Moved m'.files m.directory f.tmpLogFile f.logFile
  summary : m.files.Moved m'.files m.directory f.tmpSummaryFile f.summaryFile
  others : ∀ l, (∀ p ∈ f.names, ∀ there, m.files.locate false m.directory p ≠ .ok (l, there)) →
    m'.files.node? l = m.files.node? l
  again : f.publish.on m' = (.ok (), m')

/-- The names of one session. -/
def ownSlots : List Slot := [.log, .summary, .draftLog true, .draftSummary true]

theorem Resolved.cases (h : f.Resolved) :
    (f.tmpLogFile = f.logFile ∧ f.tmpSummaryFile = f.summaryFile) ∨
      ∃ text process, process true ≠ process false ∧
        ∀ slot ∈ ownSlots, slot.path (fun _ => f) = ⟨text ++ slot.ending process⟩ := by
  obtain ⟨directory, user, platform, process, explicit, cwd, rfl⟩ := h
  cases explicit with
  | some p => exact .inl ⟨rfl, rfl⟩
  | none =>
    let processes : Bool → Nat := fun who => if who then process else process + 1
    obtain ⟨text, hpath⟩ := @twins_path directory user platform processes cwd
    refine .inr ⟨text, processes, by simp [processes], fun slot hslot => ?_⟩
    rw [← hpath slot]
    simp only [ownSlots, List.mem_cons, List.not_mem_nil, or_false] at hslot
    rcases hslot with rfl | rfl | rfl | rfl <;> rfl

theorem publish_idle (hlog : f.tmpLogFile.same f.logFile = true ∨ m.isFile f.tmpLogFile = false)
    (hsummary : f.tmpSummaryFile.same f.summaryFile = true ∨ m.isFile f.tmpSummaryFile = false) :
    f.publish.on m = (.ok (), m) := by
  unfold publish
  rw [Job.on_bind_ok (publishOne_idle hlog), publishOne_idle hsummary]

theorem moves_idle (hlog : f.tmpLogFile.same f.logFile = true ∨ m.isFile f.tmpLogFile = false)
    (hsummary : f.tmpSummaryFile.same f.summaryFile = true ∨ m.isFile f.tmpSummaryFile = false) :
    f.Moves m m :=
  ⟨rfl, .refl _ _ hlog, .refl _ _ hsummary, fun _ _ => rfl, publish_idle hlog hsummary⟩

section

variable {text w : String} {front : List String} {d : Location} {dm : Mode} {process : Bool → Nat}
  (hprocess : process true ≠ process false)
  (hpath : ∀ slot ∈ ownSlots, slot.path (fun _ => f) = ⟨text ++ slot.ending process⟩)
  (h : Holder m.files m.directory text front d dm)
  (hsteps : ∀ e, Path.IsEnding e → steps ⟨text ++ e⟩ = front ++ [w ++ e])
include hprocess hpath h hsteps

theorem Clear.parted (hclear : f.Clear m.files m.directory) {a b : Slot} (ha : a ∈ ownSlots)
    (hb : b ∈ ownSlots) (hne : a ≠ b) :
    m.files.Parted m.directory ⟨text ++ a.ending process⟩ ⟨text ++ b.ending process⟩ := by
  have hlinked : ∀ slot ∈ ownSlots, ∀ l target,
      m.files.findItself m.directory ⟨text ++ slot.ending process⟩ = .ok (l, .link target) →
        ∀ other ∈ ownSlots, slot ≠ other → m.files.Parted m.directory ⟨text ++ slot.ending process⟩
          ⟨text ++ other.ending process⟩ := by
    intro slot hslot l target hfind other hother hdiffer
    have hpaths : other.path (fun _ => f) ≠ slot.path (fun _ => f) := by
      intro he
      rw [hpath _ hslot, hpath _ hother] at he
      have hendings := String.append_right_inj _ |>.mp (congrArg Path.text he)
      exact hdiffer (Slot.ending_injective hprocess hendings).symm
    rw [← hpath _ hslot] at hfind ⊢
    rw [← hpath _ hother]
    have hname : other.path (fun _ => f) ∈ f.names := by
      simp only [ownSlots, List.mem_cons, List.not_mem_nil, or_false] at hother
      rcases hother with rfl | rfl | rfl | rfl <;> simp [names, Slot.path]
    simp only [ownSlots, List.mem_cons, List.not_mem_nil, or_false] at hslot
    -- A final name is no link.
    rcases hslot with rfl | rfl | rfl | rfl
    · exact absurd (hclear.final _ (by simp [Slot.path]) _ _ hfind).2.1 (by simp [Node.isLink])
    · exact absurd (hclear.final _ (by simp [Slot.path]) _ _ hfind).2.1 (by simp [Node.isLink])
    · exact hclear.link _ (by simp [Slot.path]) _ _ hfind _ hname hpaths
    · exact hclear.link _ (by simp [Slot.path]) _ _ hfind _ hname hpaths
  intro l o l' o' hl hl'
  obtain ⟨-, rfl | ⟨target, hlink⟩⟩ := h.spot_place hsteps (a.isEnding process) hl
  · obtain ⟨-, rfl | ⟨target, hlink⟩⟩ := h.spot_place hsteps (b.isEnding process) hl'
    · intro he
      exact hne (Slot.ending_injective hprocess
        (String.append_right_inj _ |>.mp (List.cons.inj he).1))
    · exact (hlinked b hb _ target hlink a ha hne.symm _ _ _ _ hl' hl).symm
  · exact hlinked a ha _ target hlink b hb hne _ _ _ _ hl hl'

/-- What publishing does where the names lie in a directory. -/
theorem moves_within (hs : m.files.Sound) (hclear : f.Clear m.files m.directory)
    (hok : f.publish.on m = (.ok (), m')) : f.Moves m m' := by
  have hlog : f.logFile = ⟨text ++ Slot.log.ending process⟩ := hpath .log (by simp [ownSlots])
  have hsummary : f.summaryFile = ⟨text ++ Slot.summary.ending process⟩ :=
    hpath .summary (by simp [ownSlots])
  have hdraftLog : f.tmpLogFile = ⟨text ++ (Slot.draftLog true).ending process⟩ :=
    hpath (.draftLog true) (by simp [ownSlots])
  have hdraftSummary : f.tmpSummaryFile = ⟨text ++ (Slot.draftSummary true).ending process⟩ :=
    hpath (.draftSummary true) (by simp [ownSlots])
  have hendings : ∀ a b : Slot, a ≠ b → a.ending process ≠ b.ending process := fun a b hne he =>
    hne (Slot.ending_injective hprocess he)
  have hparted := fun a ha b hb => hclear.parted hprocess hpath h hsteps (a := a) (b := b) ha hb
  have hfinalLog := hclear.final f.logFile (by simp)
  have hfinalSummary := hclear.final f.summaryFile (by simp)
  rw [hlog] at hfinalLog
  rw [hsummary] at hfinalSummary
  obtain ⟨_, m₁, hfirst, hsecond⟩ := Job.bind_ok hok
  rw [hdraftLog, hlog] at hfirst
  rw [hdraftSummary, hsummary] at hsecond
  obtain ⟨t₁, rfl, hpassed₁, hmoved₁, hgone₁, hsame₁⟩ := publishOne_passes hs h hsteps
    (Slot.isEnding _ _) (Slot.isEnding _ _) (hendings _ _ (by decide)) hfinalLog
    (fun l n q o hl hq => hparted _ (by simp [ownSlots]) _ (by simp [ownSlots]) (by decide) _ _ _ _
      hl hq) hfirst
  have hother : ∀ slot ∈ [Slot.summary, .draftSummary true],
      t₁.findItself m.directory ⟨text ++ slot.ending process⟩ =
        m.files.findItself m.directory ⟨text ++ slot.ending process⟩ := by
    intro slot hslot
    simp only [List.mem_cons, List.not_mem_nil, or_false] at hslot
    refine hpassed₁.findItself h hsteps (slot.isEnding _) ?_ ?_ <;> rcases hslot with rfl | rfl <;>
      exact hendings _ _ (by decide)
  have hfinal₁ := hpassed₁.unshared h hsteps (Slot.isEnding _ _) (hendings _ _ (by decide))
    (hendings _ _ (by decide)) hfinalSummary
  obtain ⟨t₂, rfl, hpassed₂, hmoved₂, hgone₂, -⟩ := publishOne_passes hpassed₁.sound
    hpassed₁.holder hsteps (Slot.isEnding _ _) (Slot.isEnding _ _) (hendings _ _ (by decide)) hfinal₁
    (fun l n q o hl hq => by
      have hl₀ := hpassed₁.back _ l n hl
        (hparted _ (by simp [ownSlots]) _ (by simp [ownSlots]) (by decide))
      obtain ⟨rfl, -, hpasses⟩ := hfinal₁.place hpassed₁.holder hsteps (Slot.isEnding _ _) hq
      exact hparted _ (by simp [ownSlots]) _ (by simp [ownSlots]) (by decide) _ _ _ _ hl₀
        (hfinalSummary.spot h hsteps (Slot.isEnding _ _) hpasses))
    hsecond
  have hthose : ∀ slot ∈ [Slot.log, .draftLog true],
      t₂.findItself m.directory ⟨text ++ slot.ending process⟩ =
        t₁.findItself m.directory ⟨text ++ slot.ending process⟩ := by
    intro slot hslot
    simp only [List.mem_cons, List.not_mem_nil, or_false] at hslot
    refine hpassed₂.findItself hpassed₁.holder hsteps (slot.isEnding _) ?_ ?_ <;>
      rcases hslot with rfl | rfl <;> exact hendings _ _ (by decide)
  refine ⟨rfl, ?_, ?_, fun l hl => ?_, ?_⟩
  · rw [hdraftLog, hlog]
    exact hmoved₁.after (hthose _ (by simp)) (hthose _ (by simp))
  · rw [hdraftSummary, hsummary]
    have hdraft := hparted (.draftSummary true) (by simp [ownSlots])
    refine hmoved₂.before ?_ (fun l k mode c hfind => ?_) (hother _ (by simp)) (hother _ (by simp))
    · exact hpassed₁.isFile (hdraft _ (by simp [ownSlots]) (by decide))
        (hdraft _ (by simp [ownSlots]) (by decide))
    · exact find_of_spot (hpassed₁.spot _ l _ (spot_of_find hfind) (plain_file k mode c).ends
        (hdraft _ (by simp [ownSlots]) (by decide)) (hdraft _ (by simp [ownSlots]) (by decide)))
  · rw [hpassed₂.elsewhere h hsteps (Slot.isEnding _ _) (Slot.isEnding _ _)
        (hdraftSummary ▸ hl _ (by simp [names])) (hsummary ▸ hl _ (by simp [names])),
      hpassed₁.elsewhere h hsteps (Slot.isEnding _ _) (Slot.isEnding _ _)
        (hdraftLog ▸ hl _ (by simp [names])) (hlog ▸ hl _ (by simp [names]))]
  · refine publish_idle (.inr ?_) (.inr ?_)
    · rw [hdraftLog]
      cases hfile : m.isFile ⟨text ++ (Slot.draftLog true).ending process⟩ with
      | false =>
        obtain rfl := hsame₁ hfile
        have hdraft := hparted (.draftLog true) (by simp [ownSlots])
        exact (hpassed₂.isFile (hdraft _ (by simp [ownSlots]) (by decide))
          (hdraft _ (by simp [ownSlots]) (by decide))).trans hfile
      | true =>
        obtain ⟨l, k, mode, c, hspot⟩ := spot_of_isFile hfile
        have hgone := (hmoved₁.moves (Path.same_ending text (Slot.isEnding _ _).whole
          (Slot.isEnding _ _).long (Slot.isEnding _ _).whole (Slot.isEnding _ _).long
          (hendings _ _ (by decide))) l k mode c (find_of_spot hspot)).1
        rw [← hthose _ (by simp)] at hgone
        exact hpassed₂.holder.isFile_vacant hsteps (Slot.isEnding _ _) hgone
    · rw [hdraftSummary]
      exact hgone₂

end

/-- A session publishes its log and its summary, each a file of its own, and nothing else: what is
there is moved under the final name, what is not there leaves it as it is, and a log that is written
in place stays in place. No two names of the sessions of two processes are one route. -/
theorem publish_moves :
    (∀ (f : LogFiles) (m m' : Machine), f.Resolved → m.files.Sound →
      f.Clear m.files m.directory → f.publish.on m = (.ok (), m') → f.Moves m m') ∧
    ∀ (directory : Path) (user platform : String) (process : Bool → Nat) (cwd : Path),
      process true ≠ process false → ∀ slot other : Slot, slot ≠ other →
        (slot.path (twins directory user platform process cwd)).same
          (other.path (twins directory user platform process cwd)) = false := by
  refine ⟨fun f m m' hf hs hclear hok => ?_, fun _ _ _ _ _ hprocess => (twins_neighbours hprocess).apart⟩
  rcases hf.cases with ⟨hlog, hsummary⟩ | ⟨text, process, hprocess, hpath⟩
  · have hlog : f.tmpLogFile.same f.logFile = true := by rw [hlog, Path.same_refl]
    have hsummary : f.tmpSummaryFile.same f.summaryFile = true := by rw [hsummary, Path.same_refl]
    rw [publish_idle (.inl hlog) (.inl hsummary)] at hok
    cases hok
    exact moves_idle (.inl hlog) (.inl hsummary)
  · obtain ⟨front, w, hsteps⟩ := steps_ending text
    by_cases hfile : ∃ slot ∈ ownSlots, m.isFile (slot.path fun _ => f) = true
    · obtain ⟨slot, hslot, hfile⟩ := hfile
      rw [hpath slot hslot] at hfile
      obtain ⟨l, k, mode, c, hspot⟩ := spot_of_isFile hfile
      obtain ⟨d, dm, h⟩ := holder_of_spot (slot.isEnding process) (hsteps _ (slot.isEnding _)) hspot
      exact moves_within hprocess hpath h hsteps hs hclear hok
    · have hnone : ∀ slot ∈ ownSlots, m.isFile (slot.path fun _ => f) = false := by
        simpa using hfile
      have hlog := hnone (.draftLog true) (by simp [ownSlots])
      have hsummary := hnone (.draftSummary true) (by simp [ownSlots])
      rw [publish_idle (.inr hlog) (.inr hsummary)] at hok
      cases hok
      exact moves_idle (.inr hlog) (.inr hsummary)

namespace Cabinet

def session : LogFiles := resolve ⟨"/"⟩ "u" "p" 7 none ⟨"/"⟩

def machine (entries : List (Location × Node)) : Machine :=
  { files := { entries := ([], .directory .newDirectory) :: entries, serial := 3 }
    tools := fun _ _ _ _ => .error .notFound, clock := ⟨2024, 5, 1, 12, 0, 0, 0⟩, process := 7
    scratchRoot := ⟨"/tmp"⟩ }

/-- There is an older log, and the summary of the process is a link to a file elsewhere. -/
def filled : Machine :=
  machine [(["u.p.pid7.log"], .file 0 .newFile (Text.encode "new")),
    (["u.p.log"], .file 1 .newFile (Text.encode "old")), (["u.p.pid7.log.summary"], .link "counts"),
    (["counts"], .file 2 .newFile (Text.encode "counts"))]

theorem publish_moves_filled :
    (∃ m', session.publish.on filled = (.ok (), m') ∧ session.Moves filled m') ∧
      ∀ slot other : Slot, slot ≠ other →
        (slot.path (twins ⟨"/"⟩ "u" "p" (fun who => if who then 7 else 8) ⟨"/"⟩)).same
          (other.path (twins ⟨"/"⟩ "u" "p" (fun who => if who then 7 else 8) ⟨"/"⟩)) = false := by
  have hok : (session.publish.on filled).1.isOk = true := by decide +kernel
  refine ⟨?_, publish_moves.2 _ _ _ _ _ (by decide)⟩
  cases hrun : session.publish.on filled with
  | mk result m' =>
    rw [hrun] at hok
    cases result with
    | error e => cases hok
    | ok u =>
      exact ⟨m', rfl, publish_moves.1 session filled m' ⟨_, _, _, _, none, _, rfl⟩
        (sound_of_isSound (by decide +kernel)) (clear_of_isClear (by decide +kernel)) hrun⟩

/-- The log of the process is a link to the final one. -/
def linked : Machine :=
  machine [(["u.p.log"], .file 0 .newFile (Text.encode "old")), (["u.p.pid7.log"], .link "u.p.log")]

/-- Where the log of the process is a link to the final log, which is a file with no other name, both
are lost: the final log is emptied and the link is removed. -/
theorem linked_emptied : session.Resolved ∧ linked.files.Sound ∧
    (∀ p ∈ [session.logFile, session.summaryFile], linked.files.Unshared [] p) ∧
    linked.files.findItself [] session.tmpLogFile = .ok (["u.p.pid7.log"], .link "u.p.log") ∧
    linked.files.find [] session.tmpLogFile =
      .ok (["u.p.log"], .file 0 .newFile (Text.encode "old")) ∧
    ∃ m', session.publish.on linked = (.ok (), m') ∧
      m'.files.findItself [] session.tmpLogFile = .error .notFound ∧
      m'.files.findItself [] session.logFile = .ok (["u.p.log"], .file 0 .newFile []) := by
  refine ⟨⟨_, _, _, _, none, _, rfl⟩, sound_of_isSound (by decide +kernel), fun p hp => ?_,
    by decide +kernel, by decide +kernel, ?_⟩
  · exact unshared_of_isUnshared (List.all_eq_true.mp (by decide +kernel) p hp)
  · exact ⟨(session.publish.on linked).2, rfl, by decide +kernel, by decide +kernel⟩

end Cabinet

end LogFiles

end Regression
