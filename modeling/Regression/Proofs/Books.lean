import Regression.Proofs.Journal
import Regression.Proofs.Roots

namespace Regression

variable {α β : Type}

namespace Deed

def text? : Deed → Option String
  | noted text => some text
  | _ => none

def call? : Deed → Option Path
  | handed d => some d
  | _ => none

end Deed

namespace Walk

/-- What becomes of a directory that a walk comes to. -/
inductive Lot where
  | refused
  | pruned
  | skipped
  | empty
  | handled
  deriving DecidableEq

/-- The lot of a directory with a verdict. -/
def lotOf (v : Verdict) (handed : Bool) : Lot :=
  match v.directive with
  | .prune _ => .pruned
  | .skipSelf _ => .skipped
  | .test => if handed then .handled else .empty

def Entry.lot : Entry → Lot
  | refused _ => .refused
  | worked _ v handed => lotOf (heeded v) handed

/-- The directories of one lot, in order. -/
def withLot (lot : Lot) (es : List Entry) : List Path :=
  (es.filter (·.lot = lot)).map Entry.directory

/-- The directories that were worked on. -/
def visited (es : List Entry) : List Path :=
  (es.filter (·.lot ≠ .refused)).map Entry.directory

/-- The lines of a walk that count, by how they begin. -/
inductive Heading where
  | working
  | refused
  | empty
  | skipping
  deriving DecidableEq

def Heading.text : Heading → String
  | working => "[Working on directory "
  | refused => "[Warning: Cannot cd into "
  | empty => "[No tests in directory "
  | skipping => "[Skipping directory"

/-- What deeds tell the log under a heading. -/
def told (h : Heading) (deeds : List Deed) : List String :=
  (deeds.filterMap Deed.text?).filter (Text.startsWith · h.text)

/-- The line for what markers beside or in a directory leave out; the others leave it out in
silence. -/
def skipLine (v : Verdict) : Option String :=
  match v.directive with
  | .prune .skipifSibling => some (skippingAll v)
  | .skipSelf .skipif => some skippingSelf
  | _ => none

def Entry.skipLine : Entry → Option String
  | refused _ => none
  | worked _ v _ => Walk.skipLine (heeded v)

/-- What a walk with these entries reports, tells and hands over. -/
structure Books (o : WalkOptions) (mode : RunMode) (root : Path) (es : List Entry)
    (report : WalkReport) : Prop where
  visited : report.visited = (visited es).length
  inaccessible : report.inaccessible = (withLot .refused es).length
  pruned : report.pruned = (withLot .pruned es).length
  skipped : report.skipped = (withLot .skipped es).length
  empty : report.empty = (withLot .empty es).length
  handled : report.handled = ((course root es).filterMap Deed.call?).length
  balanced : report.visited = report.pruned + report.skipped + report.empty + report.handled
  working : told .working (course root es) = (Walk.visited es).map workingOn
  refusing : told .refused (course root es) = (withLot .refused es).map cannotEnter
  testless : told .empty (course root es) = (withLot .empty es).map noTests
  skipping : told .skipping (course root es) = es.filterMap Entry.skipLine
  cleaning : o.cleanOnly = true → report.pruned = 0 ∧ report.skipped = 0
  graphing : mode = .graph → report.empty = 0
  alone : o.recurse = false → report.visited + report.inaccessible ≤ 1

end Walk

namespace Walk

variable {o : WalkOptions} {mode : RunMode} {root d : Path} {es : List Entry} {e : Entry}
  {v : Verdict}

def Lot.counted : Lot → WalkReport
  | refused => { inaccessible := 1 }
  | pruned => { visited := 1, pruned := 1 }
  | skipped => { visited := 1, skipped := 1 }
  | empty => { visited := 1, empty := 1 }
  | handled => { visited := 1, handled := 1 }

theorem Entry.counted_eq (e : Entry) : e.counted = e.lot.counted := by
  cases e with
  | refused d => rfl
  | worked d v handed =>
    simp only [counted, lot, lotOf, Verdict.counted]
    cases (heeded v).directive with
    | prune reason => rfl
    | skipSelf reason => rfl
    | test => cases handed <;> rfl

theorem counts_eq (es : List Entry) : counts es =
    { visited := (visited es).length, pruned := (withLot .pruned es).length
      skipped := (withLot .skipped es).length, empty := (withLot .empty es).length
      handled := (withLot .handled es).length, inaccessible := (withLot .refused es).length } := by
  induction es with
  | nil => rfl
  | cons e es ih =>
    rw [counts_cons, ih, e.counted_eq]
    change WalkReport.mk .. = WalkReport.mk ..
    cases hl : e.lot <;> simp [Lot.counted, visited, withLot, hl, Nat.add_comm]

/-- Whatever is told of a verdict, the handler is called where nothing is left out. -/
theorem deeds_calls (v : Verdict) (d : Path) (handed : Bool) :
    (v.deeds d handed).filterMap Deed.call? = if lotOf v handed = .handled then [d] else [] := by
  have hsaid : Deed.call? ∘ Deed.said = fun _ => none := rfl
  have hnoted : Deed.call? ∘ Deed.noted = fun _ => none := rfl
  rw [Verdict.deeds, List.filterMap_append, List.filterMap_append, List.filterMap_map,
    List.filterMap_map, hsaid, hnoted, List.filterMap_none, List.filterMap_none]
  obtain ⟨directive, marker, warnings, info⟩ := v
  cases directive with
  | prune reason => cases reason <;> rfl
  | skipSelf reason => cases reason <;> rfl
  | test => cases handed <;> rfl

theorem Entry.calls (e : Entry) :
    e.deeds.filterMap Deed.call? = if e.lot = .handled then [e.directory] else [] := by
  cases e with
  | refused d => rfl
  | worked d v handed =>
    cases v with
    | none => exact deeds_calls _ d handed
    | some v => exact deeds_calls v d handed

/-- A walk calls its handler for the directories that are handled, in order. -/
theorem course_calls (root : Path) (es : List Entry) :
    (course root es).filterMap Deed.call? = withLot .handled es := by
  have hcalls : ∀ e : Entry, e.deeds.filterMap Deed.call? =
      (if e.lot = .handled then some e.directory else none).toList := by
    intro e
    rw [e.calls]
    split <;> rfl
  rw [course, List.filterMap_cons_none rfl, List.filterMap_flatMap, funext hcalls,
    ← List.filterMap_eq_flatMap_toList, withLot, ← List.filterMap_eq_map, List.filterMap_filter]
  simp

/-- The line of an entry under a heading. -/
def Entry.line (e : Entry) : Heading → Option String
  | .working => if e.lot ≠ .refused then some (workingOn e.directory) else none
  | .refused => if e.lot = .refused then some (cannotEnter e.directory) else none
  | .empty => if e.lot = .empty then some (noTests e.directory) else none
  | .skipping => e.skipLine

theorem Heading.apart {h h' : Heading} (hne : h ≠ h') :
    Text.startsWith h.text h'.text = false := by
  cases h <;> cases h' <;> first | contradiction | decide

/-- What begins with one heading does not begin with another. -/
theorem Heading.startsWith (h h' : Heading) (rest : String) :
    Text.startsWith (h.text ++ rest) h'.text = decide (h = h') := by
  by_cases he : h = h'
  · rw [he, Text.startsWith_self, decide_eq_true rfl]
  · rw [decide_eq_false he]
    exact Text.startsWith_append_false (apart he) (apart (Ne.symm he))

theorem told_noted (h h' : Heading) (rest : String) :
    told h' [.noted (h.text ++ rest)] = if h = h' then [h.text ++ rest] else [] := by
  simp [told, Deed.text?, List.filter_cons, h.startsWith]

theorem told_append (h : Heading) (deeds deeds' : List Deed) :
    told h (deeds ++ deeds') = told h deeds ++ told h deeds' := by
  rw [told, List.filterMap_append, List.filter_append]
  rfl

/-- What is told of a verdict that warns of failed conditions alone. -/
def verdictLine (v : Verdict) (d : Path) (handed : Bool) : Heading → Option String
  | .empty => if lotOf v handed = .empty then some (noTests d) else none
  | .skipping => skipLine v
  | _ => none

theorem told_info (h : Heading) (info : List String) : told h (info.map .said) = [] := by
  have hsaid : Deed.text? ∘ Deed.said = fun _ => none := rfl
  rw [told, List.filterMap_map, hsaid, List.filterMap_none]
  rfl

theorem told_warnings {v : Verdict} (hv : Skip.Warns v) (h : Heading) :
    told h (v.warnings.map .noted) = [] := by
  have hnoted : Deed.text? ∘ Deed.noted = some := rfl
  rw [told, List.filterMap_map, hnoted, List.filterMap_some, List.filter_eq_nil_iff]
  intro w hw
  have hknown := hv w hw
  simp only [Skip.warnings, List.mem_cons, List.not_mem_nil, or_false] at hknown
  rcases hknown with rfl | rfl <;> cases h <;> decide

theorem skippingSelf_eq :
    skippingSelf = Heading.skipping.text ++ " based on SKIPIF environment settings]" := by
  simp [Heading.text, skippingSelf]

/-- The beginning of the other line, cut where the heading ends. -/
theorem skipping_split (rest : String) :
    "[Skipping directory and children based on .skipif environment settings in " ++ rest =
      Heading.skipping.text ++
        (" and children based on .skipif environment settings in " ++ rest) := by
  have hsplit : "[Skipping directory and children based on .skipif environment settings in " =
      "[Skipping directory" ++ " and children based on .skipif environment settings in " := by simp
  rw [Heading.text, ← String.append_assoc, ← hsplit]

theorem skippingAll_eq (v : Verdict) : skippingAll v = Heading.skipping.text ++
    (" and children based on .skipif environment settings in " ++
      ((v.marker.map (·.text)).getD "" ++ "]")) :=
  (String.append_assoc ..).trans (skipping_split _)

theorem told_deeds {v : Verdict} (hv : Skip.Warns v) (d : Path) (handed : Bool) (h : Heading) :
    told h (v.deeds d handed) = (verdictLine v d handed h).toList := by
  rw [Verdict.deeds, told_append, told_append, told_info, told_warnings hv, List.nil_append,
    List.nil_append]
  unfold Verdict.outcome verdictLine lotOf skipLine
  cases hd : v.directive with
  | prune reason =>
    cases reason with
    | skipifSibling =>
      simp only [↓reduceIte]
      rw [skippingAll_eq, told_noted]
      cases h <;> rfl
    | _ => cases h <;> rfl
  | skipSelf reason =>
    cases reason with
    | skipif =>
      simp only [↓reduceIte]
      rw [skippingSelf_eq, told_noted]
      cases h <;> rfl
    | _ => cases h <;> rfl
  | test =>
    cases handed with
    | true => cases h <;> rfl
    | false =>
      have htests : noTests d = Heading.empty.text ++ (d.text ++ "]") := String.append_assoc ..
      simp only [Bool.false_eq_true, ↓reduceIte]
      rw [htests, told_noted]
      cases h <;> rfl

theorem lotOf_ne_refused (v : Verdict) (handed : Bool) : lotOf v handed ≠ .refused := by
  unfold lotOf
  cases v.directive with
  | test => cases handed <;> simp
  | _ => simp

theorem lotOf_eq_pruned {v : Verdict} {handed : Bool} :
    lotOf v handed = .pruned ↔ v.directive.prunesChildren = true := by
  unfold lotOf
  cases v.directive with
  | test => cases handed <;> simp [SkipDirective.prunesChildren]
  | _ => simp [SkipDirective.prunesChildren]

theorem told_cons (h : Heading) (deed : Deed) (deeds : List Deed) :
    told h (deed :: deeds) = told h [deed] ++ told h deeds := told_append h [deed] deeds

theorem told_other {text : String} (h : ∀ h : Heading, Text.startsWith text h.text = false)
    (h' : Heading) : told h' [.noted text] = [] := by
  simp [told, Deed.text?, h h']

theorem Entry.told (e : Entry) (hv : ∀ d v handed, e = worked d v handed → Skip.Warns (heeded v))
    (h : Heading) : Walk.told h e.deeds = (e.line h).toList := by
  cases e with
  | refused d =>
    have hrefused : cannotEnter d = Heading.refused.text ++ (d.text ++ " skipping directory]") :=
      String.append_assoc ..
    rw [deeds, hrefused, told_noted]
    cases h with
    | refused =>
      rw [if_pos rfl, ← hrefused]
      rfl
    | _ => rfl
  | worked d v handed =>
    have hworking : workingOn d = Heading.working.text ++ (d.text ++ "]") := String.append_assoc ..
    have hblank : Walk.told h [.noted ""] = [] := told_other (by intro h; cases h <;> decide) h
    have hjudged : Walk.told h (v.map (Deed.judged d)).toList = [] := by cases v <;> rfl
    rw [deeds, told_cons, told_cons _ (.noted (workingOn d)), told_append, hblank, hjudged,
      told_deeds (hv d v handed rfl), hworking, told_noted, List.nil_append, List.nil_append]
    cases h with
    | working =>
      rw [if_pos rfl, ← hworking]
      simp [line, verdictLine, lot, lotOf_ne_refused, directory]
    | refused => simp [line, verdictLine, lot, lotOf_ne_refused]
    | empty => rfl
    | skipping => rfl

/-- What a walk tells the log under a heading, entry by entry. -/
theorem course_told (root : Path)
    (hv : ∀ d v handed, Entry.worked d v handed ∈ es → Skip.Warns (Entry.heeded v)) (h : Heading) :
    told h (course root es) = es.filterMap (·.line h) := by
  have hfrom : told h [.noted (workingFrom root)] = [] := by
    have hopening : workingFrom root = "[Working from directory " ++ (root.text ++ "]") :=
      String.append_assoc ..
    refine told_other (fun h => ?_) h
    rw [hopening]
    exact Text.startsWith_append_false (by cases h <;> decide) (by cases h <;> decide)
  rw [course, told_cons, hfrom, List.nil_append, told, List.filterMap_flatMap, List.filter_flatMap,
    List.filterMap_eq_flatMap_toList]
  exact List.flatMap_congr fun e he => e.told (fun d v handed heq => hv d v handed (heq ▸ he)) h

/-- Lines that some of the entries have, one each. -/
theorem lines_eq (p : Entry → Prop) [DecidablePred p] (line : Path → String) (es : List Entry) :
    (es.filterMap fun e => if p e then some (line e.directory) else none) =
      ((es.filter (p ·)).map Entry.directory).map line := by
  rw [List.map_map, ← List.filterMap_eq_map, List.filterMap_filter]
  simp

theorem withLot_eq_nil {lot : Lot} (h : ∀ e ∈ es, e.lot ≠ lot) : withLot lot es = [] := by
  rw [withLot, List.map_eq_nil_iff, List.filter_eq_nil_iff]
  exact fun e he => by simpa using h e he

theorem visited_add_refused (es : List Entry) :
    (visited es).length + (withLot .refused es).length = es.length := by
  have hsplit := List.length_eq_length_filter_add (l := es) fun e => decide (e.lot = .refused)
  simp only [visited, withLot, List.length_map, ne_eq, decide_not]
  omega

variable {c : Context} {handle : Handler} {I : Machine → Prop} {report : WalkReport}
  {n n' : Machine}

/-- A verdict was given by the markers, on one of the machines of the walk. -/
theorem Walked.judged (h : Walked c o mode handle I root n report n' es)
    (hI : Lasts c mode handle I) (hn : I n) {v : Verdict} {handed : Bool}
    (he : Entry.worked d (some v) handed ∈ es) :
    ∃ m m', I m ∧ (Skip.evaluate c d).on m = (v, m') := by
  have hmem : Deed.judged d v ∈ course root es := by
    refine List.mem_cons_of_mem _ (List.mem_flatMap.mpr ⟨_, he, ?_⟩)
    simp [Entry.deeds]
  exact h.done.of_mem hI hn hmem

theorem Walked.warns (h : Walked c o mode handle I root n report n' es)
    (hI : Lasts c mode handle I) (hn : I n) {v : Option Verdict} {handed : Bool}
    (he : Entry.worked d v handed ∈ es) : Skip.Warns (Entry.heeded v) := by
  cases v with
  | none => exact fun _ hw => absurd hw List.not_mem_nil
  | some v =>
    obtain ⟨m, m', -, hjudged⟩ := h.judged hI hn he
    have hwarns := Skip.evaluate_warns c d m
    rwa [hjudged] at hwarns

theorem Journal.not_empty {counted : WalkReport} {deeds : List Deed}
    (h : Journal o mode es counted deeds) (hm : mode = .graph) : ∀ e ∈ es, e.lot ≠ .empty := by
  intro e he
  cases e with
  | refused d => simp [Entry.lot]
  | worked d v handed =>
    have hsound := (h.sound _ he).2.2 hm
    simp only [Entry.lot, lotOf]
    cases hv : (Entry.heeded v).directive with
    | test => simp [hsound hv]
    | _ => simp

theorem Journal.not_left_out {counted : WalkReport} {deeds : List Deed}
    (h : Journal o mode es counted deeds) (hc : o.cleanOnly = true) :
    ∀ e ∈ es, e.lot ≠ .pruned ∧ e.lot ≠ .skipped := by
  intro e he
  cases e with
  | refused d => simp [Entry.lot]
  | worked d v handed =>
    obtain rfl := (h.sound _ he).1.mpr hc
    cases handed <;> simp [Entry.lot, Entry.heeded, lotOf]

theorem Walked.books (h : Walked c o mode handle I root n report n' es)
    (hI : Lasts c mode handle I) (hn : I n) (hbalanced : Balanced report) :
    Books o mode root es report := by
  have htold := course_told root fun d v handed he => h.warns hI hn he
  have hcounted := h.journal.counted
  rw [counts_eq] at hcounted
  subst hcounted
  exact {
    visited := rfl
    inaccessible := rfl
    pruned := rfl
    skipped := rfl
    empty := rfl
    handled := by rw [course_calls]
    balanced := by
      unfold Balanced at hbalanced
      omega
    working := (htold .working).trans (lines_eq _ _ es)
    refusing := (htold .refused).trans (lines_eq _ _ es)
    testless := (htold .empty).trans (lines_eq _ _ es)
    skipping := htold .skipping
    cleaning := fun hc => by
      have hnone := h.journal.not_left_out hc
      simp [withLot_eq_nil fun e he => (hnone e he).1, withLot_eq_nil fun e he => (hnone e he).2]
    graphing := fun hm => by simp [withLot_eq_nil (h.journal.not_empty hm)]
    alone := fun hr => by
      simp only [visited_add_refused]
      exact h.journal.alone hr }

end Walk

end Regression
