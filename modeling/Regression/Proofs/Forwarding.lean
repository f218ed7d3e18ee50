import Regression.Proofs.Newlines
import Regression.Proofs.Tended

namespace Regression

/-- What a log keeps of an output: the lines of the text that it shows, without the blanks at their
ends. -/
def Text.messages (bs : Text.Bytes) : List String :=
  (Text.newlineLines (Text.decodeLossy bs)).map Text.trimEnd

theorem Text.messages_eq (bs : Text.Bytes) :
    Text.messages bs = (Text.rawLines bs).map fun l => Text.trimEnd (Text.decodeLossy l) := by
  simp [Text.messages, ← Text.decode_lines, Function.comp_def, Text.trimEnd_dropNewline]

/-- A text begins as it did once its end is cut, where no blank ends that beginning. -/
theorem Text.startsWith_trimEnd {head : String}
    (hlast : ∀ c, head.toList.getLast? = some c → Text.isBlank c = false) (s : String) :
    Text.startsWith (Text.trimEnd s) head = Text.startsWith s head := by
  obtain ⟨rest, hs, hblank⟩ := Text.trimEnd_cut s
  refine (Text.startsWith_cut hs fun c hc hhead => ?_).symm
  exact Bool.false_ne_true ((hlast c hhead).symm.trans (hblank c hc))

/-- What a message of an error begins with is such a beginning. -/
theorem Text.error_unblank : ∀ c, "[Error".toList.getLast? = some c → Text.isBlank c = false := by
  have hlast : "[Error".toList.getLast? = some 'r' := by decide
  intro c hc
  rw [← Option.some.inj (hlast.symm.trans hc)]
  decide

/-- How a job ends that hands messages to the log: they are told in order, and nothing but a log that
refuses one keeps the job from telling the rest. -/
structure Relays {α : Type} (messages : List String) (m : Machine) (r : Except Error α × Machine) :
    Prop where
  told : ∃ told, told <+: messages ∧ r.2.notes = told.reverse ++ m.notes
  all : ∀ a, r.1 = .ok a → r.2.notes = messages.reverse ++ m.notes
  failure : ∀ e, r.1 = .error e → ∃ file fault, e = .logWrite file fault
  takes : m.log.TakesAll m.files → r.1.isOk = true ∧ r.2.log.TakesAll r.2.files
  memory : ∀ kept, m.log = .memory kept → r.2.log = .memory (kept ++ messages)
  file : ∀ f text, Tended f m text → r.1.isOk = true ∧ Tended f r.2 (text ++ written messages)

namespace Relays

variable {α β : Type} {m : Machine}

theorem pure (a : α) (m : Machine) : Relays [] m (Job.on (pure a) m) where
  told := ⟨[], List.prefix_rfl, rfl⟩
  all _ _ := rfl
  failure := nofun
  takes h := ⟨rfl, h⟩
  memory kept h := by simp [h]
  file f text h := ⟨rfl, by simpa [written] using h⟩

theorem note (text : String) (m : Machine) :
    Relays [Text.trimEnd text] m ((note text).on m) := by
  obtain ⟨files, log, console, hrecords⟩ := note_records m text
  have hnotes : ((Regression.note text).on m).2.notes = [Text.trimEnd text].reverse ++ m.notes := by
    rw [hrecords]
    rfl
  constructor
  · exact ⟨_, List.prefix_rfl, hnotes⟩
  · exact fun _ _ => hnotes
  · intro e he
    cases hlog : m.log with
    | memory kept =>
      rw [note_on_memory hlog] at he
      contradiction
    | file l =>
      rw [note_on_file hlog] at he
      split at he
      · contradiction
      · split at he
        · contradiction
        · exact ⟨_, _, (Except.error.inj he).symm⟩
  · intro h
    obtain ⟨files, log, console, hon, hsteady⟩ := note_steady h text
    rw [hon]
    exact ⟨rfl, hsteady.log⟩
  · intro kept hlog
    rw [note_on_memory hlog]
  · intro f before h
    obtain ⟨m', hon, htended, -⟩ := h.note text
    rw [hon]
    exact ⟨rfl, by simpa [written] using htended⟩

/-- Messages are told one after the other, and none after one that is refused. -/
theorem bind {j : Job α} {f : α → Job β} {first rest : List String}
    (hj : Relays first m (j.on m))
    (hf : ∀ a m', j.on m = (.ok a, m') → Relays rest m' ((f a).on m')) :
    Relays (first ++ rest) m ((j >>= f).on m) := by
  rw [Job.on_bind]
  cases hon : j.on m with
  | mk answer m' =>
    rw [hon] at hj
    cases answer with
    | error e =>
      obtain ⟨told, htold, hnotes⟩ := hj.told
      simp only
      constructor
      · exact ⟨told, htold.trans (List.prefix_append _ _), hnotes⟩
      · exact nofun
      · intro e' he
        cases he
        exact hj.failure e rfl
      · intro h
        exact absurd (hj.takes h).1 Bool.false_ne_true
      · intro kept hlog
        have htakes : m.log.TakesAll m.files := by
          rw [hlog]
          trivial
        exact absurd (hj.takes htakes).1 Bool.false_ne_true
      · intro f text h
        exact absurd (hj.file f text h).1 Bool.false_ne_true
    | ok a =>
      have hrest := hf a m' hon
      have hnotes : m'.notes = first.reverse ++ m.notes := hj.all a rfl
      obtain ⟨told, htold, hnotes'⟩ := hrest.told
      simp only
      constructor
      · refine ⟨first ++ told, (List.prefix_append_right_inj first).mpr htold, ?_⟩
        simp [hnotes', hnotes]
      · intro b hb
        simp [hrest.all b hb, hnotes]
      · exact hrest.failure
      · exact fun h => hrest.takes (hj.takes h).2
      · intro kept hlog
        rw [hrest.memory _ (hj.memory kept hlog), List.append_assoc]
      · intro f text h
        rw [written_append, ← String.append_assoc]
        exact hrest.file f _ (hj.file f text h).2

theorem each (text : α → String) (xs : List α) (m : Machine) :
    Relays (xs.map fun x => Text.trimEnd (text x)) m
      (Job.on (forIn xs PUnit.unit fun x _ => do
        Regression.note (text x)
        Pure.pure (.yield PUnit.unit)) m) := by
  induction xs generalizing m with
  | nil => exact pure _ _
  | cons x xs ih =>
    rw [List.forIn_cons, bind_assoc]
    refine bind (note (text x) m) fun _ m' _ => ?_
    rw [pure_bind]
    exact ih m'

end Relays

/-- What is done once a tool that is followed has ended. -/
def Ended.relay (e : Ended) : Job Int := do
  for line in Text.rawLines e.joined do
    note (Text.decodeLossy line)
  return e.status.code

theorem Command.follow_eq (c : Command) : c.follow = c.start >>= Ended.relay := rfl

theorem Ended.relays (e : Ended) (m : Machine) :
    Relays (Text.messages e.joined) m (e.relay.on m) := by
  have hlines := Relays.each Text.decodeLossy (Text.rawLines e.joined) m
  have hboth := hlines.bind fun _ m' _ => Relays.pure e.status.code m'
  rw [List.append_nil, ← Text.messages_eq] at hboth
  exact hboth

theorem Ended.relay_code {e : Ended} {m m' : Machine} {code : Int}
    (h : e.relay.on m = (.ok code, m')) : code = e.status.code := by
  obtain ⟨_, m₁, _, hcode⟩ := Job.bind_ok h
  cases hcode
  rfl

/-- What a machine makes of the output of a tool that it follows. -/
structure Forwards (c : Command) (m : Machine) (ended : Ended) : Prop where
  /-- Messages are told in order, and no other ones. -/
  told : ∃ told, told <+: Text.messages ended.joined ∧
    (c.follow.on m).2.notes = told.reverse ++ m.notes
  /-- The exit code is answered only after all of them are told. -/
  all : ∀ code, (c.follow.on m).1 = .ok code → code = ended.status.code ∧
    (c.follow.on m).2.notes = (Text.messages ended.joined).reverse ++ m.notes
  /-- Only a log that cannot be written keeps one back. -/
  failure : ∀ e, (c.follow.on m).1 = .error e → ∃ file fault, e = .logWrite file fault
  takes : m.log.TakesAll ended.files → (c.follow.on m).1 = .ok ended.status.code
  memory : ∀ kept, m.log = .memory kept →
    (c.follow.on m).2.log = .memory (kept ++ Text.messages ended.joined)
  /-- A log that the tool leaves in good order gets one line for each of them. -/
  file : ∀ f text, Tended f { m with files := ended.files } text →
    (c.follow.on m).1 = .ok ended.status.code ∧
      Tended f (c.follow.on m).2 (text ++ written (Text.messages ended.joined))
  /-- To show each line of the output is to show all of it and then to cut it. -/
  lines : (Text.rawLines ended.joined).map (fun l => Text.dropNewline (Text.decodeLossy l)) =
    Text.newlineLines (Text.decodeLossy ended.joined)
  whole : String.join ((Text.rawLines ended.joined).map Text.decodeLossy) =
    Text.decodeLossy ended.joined
  errors : (Text.messages ended.joined).countP (Text.startsWith · "[Error") =
    (Text.newlineLines (Text.decodeLossy ended.joined)).countP (Text.startsWith · "[Error")

/-- The messages of a command are the lines of its output, whatever bytes it writes. -/
theorem Command.follow_forwards {c : Command} {m : Machine} {ended : Ended}
    (h : m.tools m.commands c m.directory m.files = .ok ended) : Forwards c m ended := by
  have hstart := c.start_on m
  rw [h] at hstart
  have hfollow := Job.on_bind_ok hstart Ended.relay
  rw [← follow_eq] at hfollow
  have hrelays := ended.relays { m with
    commands := c :: m.commands
    files := ended.files
    changes := { tool := some c, before := m.files, after := ended.files } :: m.changes }
  have hcode : ∀ code, (c.follow.on m).1 = .ok code → code = ended.status.code := by
    intro code hok
    rw [hfollow] at hok
    exact Ended.relay_code (Prod.ext hok rfl)
  rw [← hfollow] at hrelays
  have hanswer : (c.follow.on m).1.isOk = true → (c.follow.on m).1 = .ok ended.status.code := by
    intro hok
    obtain ⟨code, m', hon⟩ := Job.on_of_isOk hok
    rw [hon, hcode code (congrArg Prod.fst hon)]
  constructor
  · exact hrelays.told
  · exact fun code hok => ⟨hcode code hok, hrelays.all code hok⟩
  · exact hrelays.failure
  · exact fun htakes => hanswer (hrelays.takes htakes).1
  · exact hrelays.memory
  · intro f text htended
    have hfile := hrelays.file f text
      (htended.same rfl rfl htended.apart.sound fun _ _ => rfl)
    exact ⟨hanswer hfile.1, hfile.2⟩
  · exact Text.decode_lines ended.joined
  · exact Text.join_decode_lines ended.joined
  · have hbegins := Text.startsWith_trimEnd Text.error_unblank
    simp [Text.messages, List.countP_map, Function.comp_def, hbegins]

namespace Breaking

/-- An output that breaks a character off before a newline and ends without one. -/
def ended : Ended :=
  { written :=
      [(.output, Text.encode "[Error" ++ [0xE2, 0x82]), (.diagnostics, 10 :: Text.encode " x ")]
    status := .exited 1, files := {} }

def machine : Machine :=
  { tools := fun _ _ _ _ => .ok ended, clock := ⟨2024, 5, 1, 12, 0, 0, 0⟩, process := 1
    scratchRoot := ⟨"/tmp"⟩ }

example : Text.messages ended.joined = ["[Error\uFFFD", " x"] := by
  decide +kernel

end Breaking

theorem Breaking.follow_forwards_broken :
    machine.tools machine.commands { program := "tool" } machine.directory machine.files = .ok ended ∧
      Forwards { program := "tool" } machine ended :=
  ⟨rfl, Command.follow_forwards rfl⟩

end Regression
