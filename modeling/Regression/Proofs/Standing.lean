import Regression.Proofs.Tended
import Regression.Proofs.Upkeep

namespace Regression

open Text (Bytes)

namespace FileTree

variable {t t' t'' : FileTree} {cwd l q : Location} {p : Path} {s : String}

/-- Two outcomes of a route, of which the second is the first, or else comes to nothing where what
lay at `q` and below has been taken away. -/
inductive Reach.Cut (q : Location) : Reach → Reach → Prop where
  | same (r : Reach) : Cut q r r
  | refused (r : Reach) (f : Fault) : Cut q r (.refused f)
  | below (r : Reach) {l : Location} (h : q <:+ l) : Cut q r (.absent l)

theorem reach_prune (t : FileTree) (q : Location) (follow : Bool) (xs : List String) (l : Location) :
    Reach.Cut q (t.reach follow l xs) ((t.prune q).reach follow l xs) := by
  induction xs generalizing l with
  | nil => exact .same _
  | cons s rest ih =>
    simp only [reach, node?_prune]
    by_cases hl : q <:+ l
    · rw [if_pos hl]
      exact .refused _ _
    · rw [if_neg hl]
      split
      · split
        · exact ih l
        · split
          · exact .same _
          · split
            · exact ih l
            · split
              · exact ih l.tail
              · split
                · exact .same _
                · by_cases hs : q <:+ s :: l
                  · rw [if_pos hs]
                    cases rest with
                    | nil => exact .below _ hs
                    | cons s' rest => exact .refused _ _
                  · rw [if_neg hs]
                    split
                    · exact .same _
                    · exact .same _
                    · exact ih (s :: l)
      · exact .same _
      · exact .same _

theorem travel_prune {follow b : Bool} {links : Nat} {xs : List String} {l' : Location}
    (h : (t.prune q).travel follow links l xs = .ok (l', b)) :
    t.travel follow links l xs = .ok (l', b) ∨ q <:+ l' := by
  induction links generalizing l xs with
  | zero =>
    have hcut := reach_prune t q follow xs l
    rw [travel_eq] at h ⊢
    generalize t.reach follow l xs = r at hcut ⊢
    generalize (t.prune q).reach follow l xs = r' at h hcut
    cases hcut with
    | same => exact .inl h
    | refused => cases h
    | below hbelow =>
      cases h
      exact .inr hbelow
  | succ links ih =>
    have hcut := reach_prune t q follow xs l
    rw [travel_eq] at h ⊢
    generalize t.reach follow l xs = r at hcut ⊢
    generalize (t.prune q).reach follow l xs = r' at h hcut
    cases hcut with
    | same =>
      cases r with
      | link => exact ih h
      | _ => exact .inl h
    | refused => cases h
    | below hbelow =>
      cases h
      exact .inr hbelow

/-- Nothing is left under the name of what has been removed. -/
theorem removeDirectories_gone (hok : t.removeDirectories cwd p = .ok t') :
    (t'.findItself cwd p).isOk = false := by
  obtain ⟨q, n, hfound, rfl⟩ := removeDirectories_ok hok
  obtain ⟨-, ⟨there, hroute⟩, -⟩ := findAt_ok hfound
  cases hleft : (t.prune q).findItself cwd p with
  | error fault => rfl
  | ok found =>
    obtain ⟨l, n'⟩ := found
    obtain ⟨-, ⟨there', hroute'⟩, hn'⟩ := findAt_ok hleft
    have hbelow : q <:+ l := by
      rcases travel_prune hroute' with hsame | hbelow
      · rw [hroute] at hsame
        cases hsame
        exact List.suffix_rfl
      · exact hbelow
    rw [node?_prune, if_pos hbelow] at hn'
    cases hn'

/-- The last step to a name, where a link there is not followed, leads to its place in a directory. -/
theorem reach_itself (t : FileTree) (l : Location) (hs : IsName s) :
    (∃ f, t.reach false l [s] = .refused f) ∨
      (∃ m, t.node? l = some (.directory m)) ∧
        (t.reach false l [s] = .arrived (s :: l) ∨ t.reach false l [s] = .absent (s :: l)) := by
  simp only [reach, if_neg hs.filled, if_neg hs.notHere, if_neg hs.notUp]
  split
  · next m hm =>
    split
    · exact .inl ⟨_, rfl⟩
    · split
      · exact .inl ⟨_, rfl⟩
      · refine .inr ⟨⟨m, hm⟩, ?_⟩
        split
        · exact .inr rfl
        · exact .inl rfl
        · exact .inl rfl
  · exact .inl ⟨_, rfl⟩
  · exact .inl ⟨_, rfl⟩

/-- What lies under a name in a directory lies in the directory that the path before the name leads
to. -/
theorem find_holder {n : Node} (hp : checkPath p = .ok ()) (hs : IsName s)
    (h : t.findItself cwd (p / s) = .ok (q, n)) :
    ∃ l m, t.find cwd p = .ok (l, .directory m) ∧ q = s :: l := by
  have hfilled : p.text ≠ "" := text_ne_of_checkPath hp
  obtain ⟨-, ⟨there, ht⟩, -⟩ := findAt_ok h
  rw [steps_eq, Path.join_endsInSeparator hfilled hs.whole hs.filled, if_neg Bool.false_ne_true,
    Path.names_join hfilled hs.whole hs.filled, Path.join_origin hfilled hs.whole] at ht
  rcases travel_append t linkLimit (p.origin cwd) p.names with ⟨l, left, hl, hgo⟩ | hstop
  · rw [hgo false [s] (by simp), travel_eq] at ht
    rcases reach_itself t l hs with ⟨f, hf⟩ | ⟨⟨m, hm⟩, hlast⟩
    · rw [hf] at ht
      cases ht
    · refine ⟨l, m, ?_, ?_⟩
      · have hroute : t.travel true linkLimit (p.origin cwd) (steps p) = .ok (l, true) := by
          rw [steps_eq]
          split
          · rw [hgo true [""] (by simp), travel_eq]
            simp [reach, hm]
          · exact hl
        simp [find, findAt, locate_eq, hp, hroute, hm, bind, Except.bind, pure, Except.pure]
      · rcases hlast with hlast | hlast <;> rw [hlast] at ht <;> cases ht <;> rfl
  · obtain ⟨f, hf⟩ := hstop false [s] (by simp)
    rw [hf] at ht
    cases ht

/-- A directory lies at this place. -/
def HasDirectory (t : FileTree) (l : Location) : Prop := ∃ m, t.node? l = some (.directory m)

/-- Every directory of the one tree is a directory of the other. -/
def KeptIn (t t' : FileTree) : Prop := ∀ l, t.HasDirectory l → t'.HasDirectory l

/-- Where something is removed from a directory that a path leads to, the directory stays. -/
theorem HasDirectory.removeDirectories (h : t.HasDirectory l) (hp : checkPath p = .ok ())
    (hs : IsName s) (hstraight : ∀ l' n, t.find cwd p = .ok (l', n) → l' = l)
    (hok : t.removeDirectories cwd (p / s) = .ok t') : t'.HasDirectory l := by
  obtain ⟨q, n, hfound, rfl⟩ := removeDirectories_ok hok
  obtain ⟨l', m', hholder, rfl⟩ := find_holder hp hs hfound
  have hl := hstraight l' _ hholder
  subst hl
  obtain ⟨m, hm⟩ := h
  have habove : ¬s :: l' <:+ l' := fun habove => by
    have hlength := habove.length_le
    simp only [List.length_cons] at hlength
    omega
  exact ⟨m, by rw [node?_prune, if_neg habove, hm]⟩

namespace KeptIn

theorem refl (t : FileTree) : t.KeptIn t := fun _ h => h

theorem trans (h : t.KeptIn t') (h' : t'.KeptIn t'') : t.KeptIn t'' := fun l hl => h' l (h l hl)

theorem put {n : Node} (hn : ∀ m, t.node? l = some (.directory m) → n.isDirectory = true) :
    t.KeptIn (t.put l n) := by
  rintro l' ⟨m, hm⟩
  exact put_directory hn hm

theorem mapContents (t : FileTree) (serial : Nat) (f : Bytes → Bytes) :
    t.KeptIn (t.mapContents serial f) := by
  rintro l ⟨m, hm⟩
  exact ⟨m, (node?_mapContents_directory t serial f).mpr hm⟩

theorem makeDirectories (hok : t.makeDirectories cwd p = .ok t') : t.KeptIn t' := by
  refine makeDirectories_rule (P := t.KeptIn) (fun t₁ t₂ p hmade h => h.trans ?_) hok (refl t)
  obtain ⟨l, -, -, rfl⟩ := makeDirectory_ok hmade
  exact put fun _ _ => rfl

theorem openFile {how : Opening} {m : Mode} {hd : Handle}
    (hok : t.openFile cwd p how m = .ok (t', hd)) : t.KeptIn t' := by
  obtain ⟨l, there, -, ho⟩ := openFile_ok hok
  cases ho with
  | file hn =>
    split
    · exact mapContents t _ _
    · exact refl t
  | device hn => exact refl t
  | made hn =>
    refine put fun m hm => ?_
    rw [hn] at hm
    cases hm

theorem write {hd hd' : Handle} {bytes : Bytes} (hok : t.write hd bytes = .ok (t', hd')) :
    t.KeptIn t' := by
  cases hd with
  | file serial offset => cases offset <;> cases hok <;> exact mapContents t _ _
  | device l =>
    simp only [FileTree.write] at hok
    split at hok
    · next room hdevice =>
      split at hok
      · cases hok
        refine put fun m hm => ?_
        rw [hdevice] at hm
        cases hm
      · cases hok
    · cases hok
      exact refl t

theorem writeFile {bytes : Bytes} (hok : t.writeFile cwd p bytes = .ok t') : t.KeptIn t' := by
  obtain ⟨⟨t₁, hd⟩, hopen, hok⟩ := bind_ok hok
  obtain ⟨⟨t₂, hd'⟩, hwrite, hok⟩ := bind_ok hok
  cases hok
  exact (openFile hopen).trans (write hwrite)

theorem setMode {m : Mode} (hok : t.setMode cwd p m = .ok t') : t.KeptIn t' := by
  obtain ⟨l, n, hn, rfl⟩ := setMode_ok hok
  refine put fun m' hm' => ?_
  rw [hn] at hm'
  cases hm'
  rfl

theorem copyFile {source target : Path} (hok : t.copyFile cwd source target = .ok t') :
    t.KeptIn t' := by
  obtain ⟨m, t₁, hd, bytes, t₂, hd', hopen, hwrite, hlast⟩ := copyFile_ok hok
  have h₂ := (openFile hopen).trans (write hwrite)
  rcases hlast with hmode | rfl
  · exact h₂.trans (setMode hmode)
  · exact h₂

theorem removeFile (ht : t.Sound) (hok : t.removeFile cwd p = .ok t') : t.KeptIn t' := by
  obtain ⟨q, n, hfound, hn, rfl⟩ := removeFile_ok hok
  obtain ⟨-, -, hq⟩ := findAt_ok hfound
  rintro l ⟨m, hm⟩
  have hne : l ≠ q := by
    rintro rfl
    rw [hq] at hm
    cases hm
    cases hn
  exact ⟨m, by rw [ht.node?_pruned hq hn hne, hm]⟩

end KeptIn

end FileTree

/-- A change that leaves the directory at `l`, which `p` names: a tool that makes it does not take the
directory away, and where the session makes it `p` leads nowhere else. -/
structure Change.Leaves (p : Path) (cwd l : Location) (ch : Change) : Prop where
  kept : ch.tool.isSome → ch.before.HasDirectory l → ch.after.HasDirectory l
  straight : ch.tool = none → ∀ l' n, ch.before.find cwd p = .ok (l', n) → l' = l

/-- What has become of a machine since `m₁`: as long as every change has left the directory at `l`, it
is still there. -/
structure Standing (p : Path) (l : Location) (m₁ m : Machine) : Prop where
  tools : m.tools = m₁.tools
  directory : m.directory = m₁.directory
  sound : m.files.Sound
  kept : ∃ new, m.changes = new ++ m₁.changes ∧
    ((∀ ch ∈ new, ch.Leaves p m₁.directory l) → m.files.HasDirectory l)

namespace Standing

variable {p : Path} {l : Location} {m₁ m m' : Machine}

theorem refl (hsound : m.files.Sound) (hl : m.files.HasDirectory l) : Standing p l m m :=
  ⟨rfl, rfl, hsound, [], rfl, fun _ => hl⟩

/-- What does not count as a change keeps all directories. -/
theorem alike (h : Standing p l m₁ m) (htools : m'.tools = m.tools)
    (hdirectory : m'.directory = m.directory) (hchanges : m'.changes = m.changes)
    (hsound : m'.files.Sound) (hkept : m.files.KeptIn m'.files) : Standing p l m₁ m' := by
  obtain ⟨new, hnew, hl⟩ := h.kept
  exact ⟨htools.trans h.tools, hdirectory.trans h.directory, hsound, new, hchanges.trans hnew,
    fun hall => hkept l (hl hall)⟩

/-- One more change keeps the directory if it leaves it. -/
theorem change (h : Standing p l m₁ m) {ch : Change} (htools : m'.tools = m.tools)
    (hdirectory : m'.directory = m.directory) (hchanges : m'.changes = ch :: m.changes)
    (hsound : m'.files.Sound)
    (hkept : ch.Leaves p m.directory l → m.files.HasDirectory l → m'.files.HasDirectory l) :
    Standing p l m₁ m' := by
  obtain ⟨new, hnew, hl⟩ := h.kept
  refine ⟨htools.trans h.tools, hdirectory.trans h.directory, hsound, ch :: new, ?_, fun hall => ?_⟩
  · rw [hchanges, hnew]
    rfl
  · obtain ⟨hfirst, hall⟩ := List.forall_mem_cons.mp hall
    exact hkept (h.directory ▸ hfirst) (hl hall)

theorem note (h : Standing p l m₁ m) (text : String) :
    Standing p l m₁ ((Regression.note text).on m).2 := by
  have hfiles := note_writes m text
  obtain ⟨files, log, console, hnote⟩ := note_records m text
  rw [hnote] at hfiles ⊢
  rcases hfiles with hsame | ⟨hd, hd', hwrite⟩
  · refine h.alike rfl rfl rfl ?_ ?_
    · rw [hsame]
      exact h.sound
    · rw [hsame]
      exact .refl _
  · exact h.alike rfl rfl rfl (h.sound.write hwrite) (.write hwrite)

theorem starting (A : Command → Prop) (htools : m₁.tools.Sound) : Starting A (Standing p l m₁) := by
  refine ⟨fun m text h => h.alike rfl rfl rfl h.sound (.refl _),
    fun m text h => h.alike rfl rfl rfl h.sound (.refl _), fun m c _ h => ?_⟩
  rw [Command.start_on]
  cases hstart : m.tools m.commands c m.directory m.files with
  | error fault => exact h.alike rfl rfl rfl h.sound (.refl _)
  | ok ended =>
    refine h.change rfl rfl rfl ?_ fun hleaves => hleaves.kept rfl
    rw [h.tools] at hstart
    exact htools _ _ _ _ _ hstart h.sound

theorem lasting (A : Command → Prop) (hp : FileTree.checkPath p = .ok ())
    (htools : m₁.tools.Sound) :
    Lasting p A (Standing p l m₁) := by
  refine ⟨starting A htools, fun m text h => h.note text, fun m files hedit h => ?_⟩
  refine h.change rfl rfl rfl (hedit.sound h.sound) fun hleaves hl => ?_
  cases hedit with
  | directories q hok => exact FileTree.KeptIn.makeDirectories hok l hl
  | text q bytes hok => exact FileTree.KeptIn.writeFile hok l hl
  | removal q hok => exact FileTree.KeptIn.removeFile h.sound hok l hl
  | clearing hok => exact hl.removeDirectories hp (by decide) (hleaves.straight rfl) hok

theorem upkeep {B : String → Prop} : Upkeep B (Standing p l m₁) where
  console _ _ h := h.alike rfl rfl rfl h.sound (.refl _)
  note _ text _ h := h.note text
  log _ _ h := h.alike rfl rfl rfl h.sound (.refl _)
  opening _ _ _ _ _ hok h := h.alike rfl rfl rfl (h.sound.openFile hok) (.openFile hok)
  writing _ _ _ _ hok h := h.alike rfl rfl rfl (h.sound.writeFile hok) (.writeFile hok)
  copying _ _ _ _ hok h := h.alike rfl rfl rfl (h.sound.copyFile hok) (.copyFile hok)
  removal _ _ _ hok h := h.alike rfl rfl rfl (h.sound.removeFile hok) (.removeFile h.sound hok)

end Standing

end Regression
