import Regression.Proofs.Edits

namespace Regression

open Text (Bytes)

/-- What a write to the file with this serial number makes of a node. -/
def Node.rewrite (serial : Nat) (f : Bytes → Bytes) : Node → Node
  | .file s m c => if s = serial then .file s m (f c) else .file s m c
  | n => n

namespace FileTree

/-- A tree as edits keep it: whatever lies somewhere lies in a directory, and the next serial number
is not in use. -/
structure Sound (t : FileTree) : Prop where
  held : ∀ s l, t.node? (s :: l) ≠ none → ∃ m, t.node? l = some (.directory m)
  fresh : ∀ l s m c, t.node? l = some (.file s m c) → s < t.serial

/-- Whether a tree is sound, entry by entry. -/
def isSound (t : FileTree) : Bool :=
  t.entries.all fun e =>
    (match e.1 with
      | [] => true
      | _ :: l => (t.node? l).any Node.isDirectory) &&
    (match e.2 with
      | .file s _ _ => decide (s < t.serial)
      | _ => true)

variable {t t' : FileTree} {cwd l l' : Location} {p : Path}

theorem node?_put (t : FileTree) (l l' : Location) (n : Node) :
    (t.put l n).node? l' = if l' = l then some n else t.node? l' := by
  have hkept : (t.entries.filter fun e => e.1 != l).lookup l' =
      if l' != l then t.entries.lookup l' else none := lookup_kept t.entries (· != l) l'
  unfold node? put
  rw [List.lookup_cons, hkept]
  by_cases h : l' = l
  · simp [h]
  · have hne : (l' == l) = false := beq_eq_false_iff_ne.mpr h
    simp [h, hne]

@[simp] theorem node?_serial (t : FileTree) (l : Location) (k : Nat) :
    ({ t with serial := k } : FileTree).node? l = t.node? l := rfl

theorem node?_mapContents (t : FileTree) (serial : Nat) (f : Bytes → Bytes) (l : Location) :
    (t.mapContents serial f).node? l = (t.node? l).map (Node.rewrite serial f) := by
  have hentries : (t.mapContents serial f).entries =
      t.entries.map fun e => (e.1, e.2.rewrite serial f) := by
    unfold mapContents
    apply List.map_congr_left
    intro e _
    obtain ⟨l', n⟩ := e
    cases n with
    | file s m c =>
      simp only [Node.rewrite]
      split <;> rfl
    | _ => rfl
  rw [node?, hentries, lookup_mapped]
  rfl

theorem node?_mapContents_directory (t : FileTree) (serial : Nat) (f : Bytes → Bytes) {m : Mode} :
    (t.mapContents serial f).node? l = some (.directory m) ↔ t.node? l = some (.directory m) := by
  rw [node?_mapContents]
  cases t.node? l with
  | none => simp
  | some n =>
    cases n with
    | file s m c =>
      simp only [Option.map_some, Node.rewrite]
      split <;> simp
    | _ => simp [Node.rewrite]

/-- A node that takes no directory's place unless it is one leaves all directories. -/
theorem put_directory {n : Node} {m : Mode}
    (hn : ∀ m, t.node? l = some (.directory m) → n.isDirectory = true)
    (hm : t.node? l' = some (.directory m)) : ∃ m', (t.put l n).node? l' = some (.directory m') := by
  rw [node?_put]
  split
  · next he =>
    have hdirectory := hn m (he ▸ hm)
    cases n with
    | directory m' => exact ⟨m', rfl⟩
    | _ => cases hdirectory
  · exact ⟨m, hm⟩

theorem sound_of_isSound (h : t.isSound = true) : t.Sound := by
  have hentry : ∀ l n, t.node? l = some n → (l, n) ∈ t.entries := by
    intro l n hn
    obtain ⟨before, after, hentries, -⟩ := List.lookup_eq_some_iff.mp hn
    rw [hentries]
    simp
  refine ⟨?_, ?_⟩
  · intro s l hl
    obtain ⟨n, hn⟩ := Option.ne_none_iff_exists'.mp hl
    have hchecked := List.all_eq_true.mp h _ (hentry _ n hn)
    simp only [Bool.and_eq_true] at hchecked
    have hholder : (t.node? l).any Node.isDirectory = true := hchecked.1
    cases hd : t.node? l with
    | none =>
      rw [hd] at hholder
      cases hholder
    | some d =>
      rw [hd] at hholder
      cases d with
      | directory m => exact ⟨m, rfl⟩
      | _ => cases hholder
  · intro l s m c hn
    have hchecked := List.all_eq_true.mp h _ (hentry _ _ hn)
    simp only [Bool.and_eq_true, decide_eq_true_eq] at hchecked
    exact hchecked.2

namespace Sound

/-- Below anything but a directory lies nothing. -/
theorem nothing_below (h : t.Sound) (hl : ∀ m, t.node? l ≠ some (.directory m)) (hbelow : l <:+ l')
    (hne : l' ≠ l) : t.node? l' = none := by
  induction l' with
  | nil => exact absurd (List.suffix_nil.mp hbelow).symm hne
  | cons s l' ih =>
    cases hn : t.node? (s :: l') with
    | none => rfl
    | some n =>
      obtain ⟨m, hm⟩ := h.held s l' (by simp [hn])
      rcases List.suffix_cons_iff.mp hbelow with heq | hsuffix
      · exact absurd heq.symm hne
      · by_cases he : l' = l
        · exact absurd (he ▸ hm) (hl m)
        · rw [ih hsuffix he] at hm
          cases hm

/-- Where anything but a directory is taken away, all else is left. -/
theorem node?_pruned {n : Node} (h : t.Sound) (hn : t.node? l = some n)
    (hdirectory : n.isDirectory = false) (hne : l' ≠ l) : (t.prune l).node? l' = t.node? l' := by
  rw [node?_prune]
  split
  · next hbelow =>
    refine (h.nothing_below (fun m hm => ?_) hbelow hne).symm
    rw [hn] at hm
    cases hm
    cases hdirectory
  · rfl

theorem mapContents (h : t.Sound) (serial : Nat) (f : Bytes → Bytes) :
    (t.mapContents serial f).Sound := by
  refine ⟨?_, ?_⟩
  · intro s l hn
    have hn' : t.node? (s :: l) ≠ none := by
      intro hnone
      rw [node?_mapContents, hnone] at hn
      exact hn rfl
    obtain ⟨m, hm⟩ := h.held s l hn'
    exact ⟨m, (node?_mapContents_directory t serial f).mpr hm⟩
  · intro l s m c hn
    rw [node?_mapContents] at hn
    obtain ⟨n, hn', hfile⟩ := Option.map_eq_some_iff.mp hn
    cases n with
    | file s' m' c' =>
      have hs : s' = s := by
        simp only [Node.rewrite] at hfile
        split at hfile <;> cases hfile <;> rfl
      exact hs ▸ h.fresh l s' m' c' hn'
    | _ => cases hfile

/-- A node in a directory, which takes no directory's place unless it is one. -/
theorem put {n : Node} (h : t.Sound) (hholder : l ≠ [] → ∃ m, t.node? l.tail = some (.directory m))
    (hdirectory : ∀ m, t.node? l = some (.directory m) → n.isDirectory = true)
    (hserial : ∀ s m c, n = .file s m c → s < t.serial) : (t.put l n).Sound := by
  refine ⟨?_, ?_⟩
  · intro s l' hn
    rw [node?_put] at hn
    split at hn
    · next he =>
      obtain ⟨m, hm⟩ := hholder (he ▸ List.cons_ne_nil s l')
      rw [← he] at hm
      exact put_directory hdirectory hm
    · obtain ⟨m, hm⟩ := h.held s l' hn
      exact put_directory hdirectory hm
  · intro l' s m c hn
    rw [node?_put] at hn
    split at hn
    · exact hserial s m c (Option.some.inj hn)
    · exact h.fresh l' s m c hn

theorem prune (h : t.Sound) (l : Location) : (t.prune l).Sound := by
  refine ⟨?_, ?_⟩
  · intro s l' hn
    rw [node?_prune] at hn
    split at hn
    · exact absurd rfl hn
    · next hkept =>
      obtain ⟨m, hm⟩ := h.held s l' hn
      refine ⟨m, ?_⟩
      rw [node?_prune, if_neg fun hl => hkept (hl.trans (List.suffix_cons s l'))]
      exact hm
  · intro l' s m c hn
    rw [node?_prune] at hn
    split at hn
    · cases hn
    · exact h.fresh l' s m c hn

theorem makeDirectory (h : t.Sound) (hok : t.makeDirectory cwd p = .ok t') : t'.Sound := by
  obtain ⟨l, hnone, hholder, rfl⟩ := makeDirectory_ok hok
  exact h.put (fun _ => hholder) (fun m _ => rfl) fun s m c hf => by cases hf

theorem makeDirectories (h : t.Sound) (hok : t.makeDirectories cwd p = .ok t') : t'.Sound :=
  makeDirectories_rule (P := Sound) (fun _ _ _ hmade ht => ht.makeDirectory hmade) hok h

theorem removeFile (h : t.Sound) (hok : t.removeFile cwd p = .ok t') : t'.Sound := by
  obtain ⟨l, n, -, -, rfl⟩ := removeFile_ok hok
  exact h.prune l

theorem removeDirectories (h : t.Sound) (hok : t.removeDirectories cwd p = .ok t') : t'.Sound := by
  obtain ⟨l, n, -, rfl⟩ := removeDirectories_ok hok
  exact h.prune l

theorem opened {how : Opening} {m : Mode} {hd : Handle} (h : t.Sound)
    (ho : Opened t l how m t' hd) : t'.Sound := by
  cases ho with
  | file hn =>
    split
    · exact h.mapContents ..
    · exact h
  | device hn => exact h
  | made hn hholder =>
    have hnext : ({ t with serial := t.serial + 1 } : FileTree).Sound :=
      ⟨h.held, fun l s m c hs => Nat.lt_succ_of_lt (h.fresh l s m c hs)⟩
    refine Sound.put hnext (fun _ => hholder) (fun m hm => ?_) fun s m c hf => ?_
    · rw [node?_serial, hn] at hm
      cases hm
    · cases hf
      exact Nat.lt_succ_self _

theorem openFile {how : Opening} {m : Mode} {hd : Handle} (h : t.Sound)
    (hok : t.openFile cwd p how m = .ok (t', hd)) : t'.Sound := by
  obtain ⟨l, there, -, ho⟩ := openFile_ok hok
  exact h.opened ho

theorem write {hd hd' : Handle} {bytes : Bytes} (h : t.Sound)
    (hok : t.write hd bytes = .ok (t', hd')) : t'.Sound := by
  cases hd with
  | file serial offset =>
    cases offset <;> cases hok <;> exact h.mapContents ..
  | device l =>
    simp only [FileTree.write] at hok
    split at hok
    · next room hdevice =>
      split at hok
      · cases hok
        refine h.put (fun hl => ?_) (fun m hm => ?_) fun s m c hf => by cases hf
        · obtain ⟨s, l', rfl⟩ := List.exists_cons_of_ne_nil hl
          exact h.held s l' (by simp [hdevice])
        · rw [hdevice] at hm
          cases hm
      · cases hok
    · cases hok
      exact h

theorem writeFile {bytes : Bytes} (h : t.Sound) (hok : t.writeFile cwd p bytes = .ok t') :
    t'.Sound := by
  obtain ⟨⟨t₁, hd⟩, hopen, hok⟩ := bind_ok hok
  obtain ⟨⟨t₂, hd'⟩, hwrite, hok⟩ := bind_ok hok
  cases hok
  exact (h.openFile hopen).write hwrite

theorem setMode {m : Mode} (h : t.Sound) (hok : t.setMode cwd p m = .ok t') : t'.Sound := by
  obtain ⟨l, n, hn, rfl⟩ := setMode_ok hok
  refine h.put (fun hl => ?_) (fun m' hm' => ?_) fun s m' c hf => ?_
  · obtain ⟨s, l', rfl⟩ := List.exists_cons_of_ne_nil hl
    exact h.held s l' (by simp [hn])
  · rw [hn] at hm'
    cases hm'
    rfl
  · cases n with
    | file s' m₀ c₀ =>
      cases hf
      exact h.fresh l s m₀ c hn
    | _ => cases hf

theorem copyFile {source target : Path} (h : t.Sound) (hok : t.copyFile cwd source target = .ok t') :
    t'.Sound := by
  obtain ⟨m, t₁, hd, bytes, t₂, hd', hopen, hwrite, hlast⟩ := copyFile_ok hok
  have h₂ := (h.openFile hopen).write hwrite
  rcases hlast with hmode | rfl
  · exact h₂.setMode hmode
  · exact h₂

end Sound

end FileTree

end Regression
