import Regression.Proofs.Names
import Regression.Proofs.Spot

namespace Regression

theorem Path.ne_of_same {p q : Path} (h : p.same q = false) : p ≠ q := by
  rintro rfl
  rw [Path.same_refl] at h
  cases h

/-- What is below an absolute path is absolute. -/
theorem Path.isAbsolute_append {p : Path} (h : p.isAbsolute = true) (s : String) :
    Path.isAbsolute ⟨p.text ++ s⟩ = true := by
  unfold isAbsolute at h ⊢
  rw [String.toList_append, List.head?_append]
  cases hhead : p.text.toList.head? with
  | none =>
    rw [hhead] at h
    cases h
  | some c => rwa [hhead] at h

theorem Path.isAbsolute_join {p : Path} (h : p.isAbsolute = true) (s : String) :
    (p / s).isAbsolute = true := by
  change (p.join s).isAbsolute = true
  unfold join
  split
  · next hs => exact hs
  · split
    · exact isAbsolute_append h s
    · rw [String.append_assoc]
      exact isAbsolute_append h _

/-- The names of two sessions: those that they share, and those of each process. -/
inductive Slot where
  | log
  | summary
  | draftLog (who : Bool)
  | draftSummary (who : Bool)
  deriving DecidableEq, Repr

namespace Slot

def all : List Slot :=
  [log, summary, draftLog true, draftLog false, draftSummary true, draftSummary false]

theorem mem_all (slot : Slot) : slot ∈ all := by
  rcases slot with _ | _ | (_ | _) | (_ | _) <;> decide

def path (f : Bool → LogFiles) : Slot → Path
  | log => (f true).logFile
  | summary => (f true).summaryFile
  | draftLog who => (f who).tmpLogFile
  | draftSummary who => (f who).tmpSummaryFile

def names (f : Bool → LogFiles) : List Path := all.map (path f)

theorem path_mem (f : Bool → LogFiles) (slot : Slot) : slot.path f ∈ names f :=
  List.mem_map.mpr ⟨slot, slot.mem_all, rfl⟩

/-- How the name of a log ends, where a process has its own. -/
def logEnding : Option Nat → String
  | none => ".log"
  | some process => ".pid" ++ toString process ++ ".log"

theorem logEnding_letters (process : Option Nat) :
    '/' ∉ (logEnding process).toList ∧ 3 ≤ (logEnding process).length ∧
      (logEnding process).toList.getLast? = some 'g' := by
  cases process with
  | none => decide
  | some n =>
    obtain ⟨hwhole, hlong, -⟩ := LogFiles.ending_of_process n
    refine ⟨hwhole, Nat.lt_trans (by decide : 2 < 8) hlong, ?_⟩
    rw [logEnding, String.toList_append, List.getLast?_append]
    rfl

theorem logEnding_injective {p q : Option Nat} (h : logEnding p = logEnding q) : p = q := by
  have hletters := congrArg String.toList h
  cases p with
  | none =>
    cases q with
    | none => rfl
    | some n => simp [logEnding] at hletters
  | some n =>
    cases q with
    | none => simp [logEnding] at hletters
    | some k =>
      have hdigits : Nat.toDigits 10 n = Nat.toDigits 10 k := by simpa [logEnding] using hletters
      rw [← Nat.ofDigitChars_ten_toDigits (n := n), hdigits, Nat.ofDigitChars_ten_toDigits]

/-- Whose a name is. -/
def process (of : Bool → Nat) : Slot → Option Nat
  | log | summary => none
  | draftLog who | draftSummary who => some (of who)

def isSummary : Slot → Bool
  | log | draftLog _ => false
  | summary | draftSummary _ => true

def ending (of : Bool → Nat) (slot : Slot) : String :=
  logEnding (slot.process of) ++ if slot.isSummary then ".summary" else ""

theorem ending_letters (of : Bool → Nat) (slot : Slot) :
    '/' ∉ (slot.ending of).toList ∧ 3 ≤ (slot.ending of).length ∧
      (slot.ending of).toList.getLast? = some (if slot.isSummary then 'y' else 'g') := by
  obtain ⟨hwhole, hlong, hlast⟩ := logEnding_letters (slot.process of)
  unfold ending
  cases slot.isSummary with
  | true => exact ⟨by simpa using hwhole, by simp only [String.length_append]; omega, by simp⟩
  | false => simpa using ⟨hwhole, hlong, hlast⟩

theorem of_injective {of : Bool → Nat} (hof : of true ≠ of false) {a b : Bool} (h : of a = of b) :
    a = b := by
  cases a <;> cases b <;> simp_all

theorem ending_injective {of : Bool → Nat} (hof : of true ≠ of false) {slot other : Slot}
    (h : slot.ending of = other.ending of) : slot = other := by
  have hkind : slot.isSummary = other.isSummary := by
    have hlast := (slot.ending_letters of).2.2
    rw [h, (other.ending_letters of).2.2] at hlast
    cases hs : slot.isSummary <;> cases ho : other.isSummary <;> simp_all
  have hprocess : slot.process of = other.process of := by
    unfold ending at h
    rw [hkind, String.append_left_inj] at h
    exact logEnding_injective h
  cases slot <;> cases other <;> simp_all [process, isSummary]
  all_goals exact of_injective hof hprocess

end Slot

/-- Sessions that share the final names of their logs and summaries, and no other name. -/
structure Neighbours (f : Bool → LogFiles) : Prop where
  log : ∀ who, (f who).logFile = (f true).logFile
  summary : ∀ who, (f who).summaryFile = (f true).summaryFile
  apart : ∀ slot other : Slot, slot ≠ other → (slot.path f).same (other.path f) = false

namespace LogFiles

/-- The names of two processes of one user on one platform. -/
def twins (directory : Path) (user platform : String) (process : Bool → Nat) (cwd : Path)
    (who : Bool) : LogFiles :=
  resolve directory user platform (process who) none cwd

variable {directory : Path} {user platform : String} {process : Bool → Nat} {cwd : Path}

theorem twins_path : ∃ text, ∀ slot : Slot,
    slot.path (twins directory user platform process cwd) = ⟨text ++ slot.ending process⟩ := by
  have hfilled : user ++ "." ++ platform ≠ "" := by
    intro h
    have hlength := congrArg String.length h
    simp [String.length_append] at hlength
  obtain ⟨text, hjoin⟩ := directory.join_ending hfilled
  have hlog : directory / (user ++ "." ++ platform ++ ".log") = ⟨text ++ ".log"⟩ := hjoin ".log"
  have htmp : ∀ n : Nat, directory / (user ++ "." ++ platform ++ ".pid" ++ toString n ++ ".log") =
      ⟨text ++ (".pid" ++ toString n ++ ".log")⟩ := by
    intro n
    rw [← hjoin]
    simp only [String.append_assoc]
  refine ⟨text, fun slot => ?_⟩
  cases slot <;> simp only [Slot.path, twins, resolve, withSummary, hlog, htmp] <;>
    simp [Slot.ending, Slot.process, Slot.isSummary, Slot.logEnding, String.append_assoc]

/-- Two processes find what the names lead to in one place, if the directory does not depend on where
they work. -/
theorem twins_origin {here there : Location} (h : directory.isAbsolute = true ∨ here = there) :
    ∀ p ∈ Slot.names (twins directory user platform process cwd), p.origin here = p.origin there := by
  intro p hp
  rcases h with h | rfl
  · obtain ⟨slot, -, rfl⟩ := List.mem_map.mp hp
    have habsolute : (slot.path (twins directory user platform process cwd)).isAbsolute = true := by
      have hjoin := Path.isAbsolute_join h
      cases slot with
      | log => exact hjoin _
      | draftLog who => exact hjoin _
      | summary => exact Path.isAbsolute_append (hjoin _) _
      | draftSummary who => exact Path.isAbsolute_append (hjoin _) _
    rw [Path.origin, Path.origin, if_pos habsolute, if_pos habsolute]
  · rfl

theorem twins_neighbours (hprocess : process true ≠ process false) :
    Neighbours (twins directory user platform process cwd) := by
  obtain ⟨text, hpath⟩ := @twins_path directory user platform process cwd
  refine ⟨fun _ => rfl, fun _ => rfl, fun slot other hne => ?_⟩
  obtain ⟨hwhole, hlong, -⟩ := slot.ending_letters process
  obtain ⟨hwhole', hlong', -⟩ := other.ending_letters process
  rw [hpath, hpath]
  exact Path.same_ending text hwhole hlong hwhole' hlong' fun h =>
    hne (Slot.ending_injective hprocess h)

end LogFiles

end Regression
