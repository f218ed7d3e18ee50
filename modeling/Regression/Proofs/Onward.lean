import Regression.Proofs.Course
import Regression.Proofs.Tools
import Regression.Proofs.Upkeep

namespace Regression

/-- A machine whose records have grown, by commands that `A` allows. -/
structure Onward (A : Command → Prop) (m₁ m : Machine) : Prop where
  notes : ∃ told, m.notes = told ++ m₁.notes
  commands : ∃ asked, m.commands = asked ++ m₁.commands ∧ ∀ c ∈ asked, A c

namespace Onward

variable {A : Command → Prop} {m₁ m m' : Machine} {s : Session}

theorem refl : Onward A m m := ⟨⟨[], rfl⟩, [], rfl, nofun⟩

theorem trans (h : Onward A m₁ m) (h' : Onward A m m') : Onward A m₁ m' := by
  obtain ⟨told, htold⟩ := h.notes
  obtain ⟨asked, hasked, hall⟩ := h.commands
  obtain ⟨told', htold'⟩ := h'.notes
  obtain ⟨asked', hasked', hall'⟩ := h'.commands
  refine ⟨⟨told' ++ told, by rw [htold', htold, List.append_assoc]⟩, asked' ++ asked,
    by rw [hasked', hasked, List.append_assoc], List.forall_mem_append.mpr ⟨hall', hall⟩⟩

/-- Nothing else of the machine counts. -/
theorem alike (h : Onward A m₁ m) (hnotes : m'.notes = m.notes)
    (hcommands : m'.commands = m.commands) : Onward A m₁ m' := by
  obtain ⟨told, htold⟩ := h.notes
  obtain ⟨asked, hasked, hall⟩ := h.commands
  exact ⟨⟨told, hnotes.trans htold⟩, asked, hcommands.trans hasked, hall⟩

theorem note (h : Onward A m₁ m) (text : String) : Onward A m₁ ((Regression.note text).on m).2 := by
  obtain ⟨files, log, console, hnote⟩ := note_records m text
  rw [hnote]
  exact h.trans ⟨⟨[Text.trimEnd text], rfl⟩, [], rfl, nofun⟩

theorem start (h : Onward A m₁ m) {c : Command} (hc : A c) : Onward A m₁ (c.start.on m).2 := by
  have hasked : Onward A m (c.start.on m).2 := by
    rw [Command.start_on]
    have hone : ∀ d ∈ [c], A d := List.forall_mem_singleton.mpr hc
    cases m.tools m.commands c m.directory m.files with
    | error fault => exact ⟨⟨[], rfl⟩, [c], rfl, hone⟩
    | ok ended => exact ⟨⟨[], rfl⟩, [c], rfl, hone⟩
  exact h.trans hasked

theorem starting : Starting A (Onward A m₁) :=
  ⟨fun _ _ h => h.alike rfl rfl, fun _ _ h => h.alike rfl rfl, fun _ _ hc h => h.start hc⟩

theorem lasting (tmp : Path) : Lasting tmp A (Onward A m₁) :=
  ⟨starting, fun _ text h => h.note text, fun _ _ _ h => h.alike rfl rfl⟩

theorem upkeep {B : String → Prop} : Upkeep B (Onward A m₁) where
  console _ _ h := h.alike rfl rfl
  note _ text _ h := h.note text
  log _ _ h := h.alike rfl rfl
  opening _ _ _ _ _ _ h := h.alike rfl rfl
  writing _ _ _ _ _ h := h.alike rfl rfl
  copying _ _ _ _ _ h := h.alike rfl rfl
  removal _ _ _ _ h := h.alike rfl rfl

theorem openScratch : s.openScratch.Stays (Onward A m₁) :=
  Session.openScratch_stays (fun _ h => h.alike rfl rfl) fun _ _ _ _ h => h.alike rfl rfl

theorem closeScratch (scratch : Scratch) : (Session.closeScratch scratch).Stays (Onward A m₁) :=
  Session.closeScratch_stays (fun _ _ _ _ h => h.alike rfl rfl) scratch

theorem concluding (hc : s.settings.junitXml → A s.junitCommand) (scratch : Scratch) :
    Concluding s scratch (Onward A m₁) :=
  ⟨upkeep, closeScratch scratch, fun hjunit => starting.junitReport (hc hjunit)⟩

/-- From its beginning to its end a session goes on so. -/
theorem run (hA : Lasting.Grants A s.settings) (hc : s.settings.junitXml → A s.junitCommand)
    (targets : List Path) : (s.run targets).Stays (Onward A m₁) := by
  have hin : ∀ scratch, (s.runIn scratch targets).Stays (Onward A m₁) := fun scratch =>
    (upkeep (B := s.Closes)).openLog.after fun _ =>
      ((lasting scratch.path).test upkeep hA targets).after fun ending =>
        (concluding hc scratch).finish ending
  unfold Session.run
  refine openScratch.after fun scratch => ?_
  refine (hin scratch).outcome.after fun result => ?_
  split
  · exact Job.Keeps.given _
  · exact (closeScratch scratch).outcome.after fun _ => Job.Keeps.throw _ _

/-- What a session does once its targets are sorted. -/
theorem after_sorting (hA : Lasting.Grants A s.settings)
    (hc : s.settings.junitXml → A s.junitCommand) {scratch : Scratch} {targets : List Path}
    {sorted : List Target} {m₂ : Machine} (hbegins : s.Begins m scratch m₁)
    (hsort : (s.sortTargets targets).on m₁ = (.ok sorted, m₂)) :
    Onward A m₂ ((s.run targets).on m).2 := by
  have htest : Onward A m₂ ((s.test scratch targets).on m₁).2 := by
    rw [Session.test_eq, Job.on_bind_ok hsort]
    exact ((lasting scratch.path).testSorted upkeep hA targets sorted m₂ .refl).1
  exact (concluding hc scratch).run hbegins htest

end Onward

end Regression
