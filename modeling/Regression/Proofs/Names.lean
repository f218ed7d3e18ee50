import Regression.LogFiles
import Regression.Proofs.Lines

namespace Regression

namespace Path

/-- What is added to a text adds to the last piece alone. -/
theorem splitOn_ending (cs : List Char) : ∃ front w, ∀ e, '/' ∉ e →
    (cs ++ e).splitOn '/' = front ++ [w ++ e] := by
  by_cases h : '/' ∈ cs
  · obtain ⟨after, before, hcs, hafter⟩ := List.eq_append_cons_of_mem (List.mem_reverse.mpr h)
    have hcs : cs = before.reverse ++ '/' :: after.reverse := by
      simpa using congrArg List.reverse hcs
    refine ⟨before.reverse.splitOn '/', after.reverse, fun e he => ?_⟩
    have hlast : (after.reverse ++ e).splitOn '/' = [after.reverse ++ e] :=
      List.splitOn_eq_singleton (by simp [hafter, he])
    rw [hcs, List.append_assoc, List.cons_append, List.splitOn_append_cons_self, hlast]
  · exact ⟨[], cs, fun e he => List.splitOn_eq_singleton (by simp [h, he])⟩

theorem components_ending (text : String) : ∃ front w, ∀ e : String, '/' ∉ e.toList →
    3 ≤ e.length → (Path.mk (text ++ e)).components = front ++ [.name (w ++ e)] := by
  obtain ⟨front, w, hsplit⟩ := splitOn_ending text.toList
  have hpieces : ∀ e : String, '/' ∉ e.toList →
      (Path.mk (text ++ e)).pieces = front.map String.ofList ++ [String.ofList w ++ e] := by
    intro e he
    simp [pieces, hsplit _ he, String.ofList_append]
  have hlong : ∀ e : String, 3 ≤ e.length → ∀ short : String, short.length < 3 →
      String.ofList w ++ e ≠ short := by
    intro e he short hshort h
    rw [← h, String.length_append] at hshort
    omega
  have hlast : ∀ e : String, 3 ≤ e.length →
      isIdle (String.ofList w ++ e) = false ∧
        step (String.ofList w ++ e) = .name (String.ofList w ++ e) := by
    intro e he
    simp [isIdle, step, hlong e he "" (by decide), hlong e he "." (by decide),
      hlong e he ".." (by decide)]
  -- The start of the path is read off its first piece, which is the last one where no other is.
  cases hfront : front.map String.ofList with
  | nil =>
    refine ⟨[], String.ofList w, fun e he hlen => ?_⟩
    obtain ⟨hidle, hstep⟩ := hlast e hlen
    have hstart : (Path.mk (text ++ e)).start = .plain := by
      rw [start, hpieces e he, hfront]
      split
      · simp_all
      · next h => exact absurd (List.cons.inj h).1 (hlong e hlen "." (by decide))
      · rfl
    simp [components, body, hstart, hpieces e he, hfront, hidle, hstep, Start.components]
  | cons p ps =>
    have hparts : ∀ e : String, '/' ∉ e.toList →
        (Path.mk (text ++ e)).pieces = p :: (ps ++ [String.ofList w ++ e]) := by
      intro e he
      rw [hpieces e he, hfront, List.cons_append]
    have hrest : ∀ e : String, 3 ≤ e.length →
        ((ps ++ [String.ofList w ++ e]).filter fun s => !isIdle s).map step =
          (ps.filter fun s => !isIdle s).map step ++ [.name (String.ofList w ++ e)] := by
      intro e hlen
      obtain ⟨hidle, hstep⟩ := hlast e hlen
      simp [hidle, hstep]
    by_cases hroot : p = ""
    · refine ⟨.root :: (ps.filter fun s => !isIdle s).map step, String.ofList w,
        fun e he hlen => ?_⟩
      have hstart : (Path.mk (text ++ e)).start = .root := by
        rw [start, hparts e he, hroot]
        cases ps <;> rfl
      rw [components, body, hstart, hparts e he]
      simp only [List.tail_cons, hrest e hlen]
      rfl
    · by_cases hcurrent : p = "."
      · refine ⟨.current :: (ps.filter fun s => !isIdle s).map step, String.ofList w,
          fun e he hlen => ?_⟩
        have hstart : (Path.mk (text ++ e)).start = .current := by
          rw [start, hparts e he, hcurrent]
          rfl
        rw [components, body, hstart, hparts e he]
        simp only [List.tail_cons, hrest e hlen]
        rfl
      · refine ⟨((p :: ps).filter fun s => !isIdle s).map step, String.ofList w,
          fun e he hlen => ?_⟩
        obtain ⟨hidle, hstep⟩ := hlast e hlen
        have hstart : (Path.mk (text ++ e)).start = .plain := by
          rw [start, hparts e he]
          split
          · next h => exact absurd (List.cons.inj h).1 hroot
          · next h => exact absurd (List.cons.inj h).1 hcurrent
          · rfl
        rw [components, body, hstart, hparts e he]
        simp only [Start.components, List.nil_append, ← List.cons_append, List.filter_append,
          List.map_append]
        simp [hidle, hstep]

/-- Paths that end in different texts are different routes. -/
theorem same_ending (text : String) {e e' : String} (he : '/' ∉ e.toList) (hlen : 3 ≤ e.length)
    (he' : '/' ∉ e'.toList) (hlen' : 3 ≤ e'.length) (hne : e ≠ e') :
    (Path.mk (text ++ e)).same ⟨text ++ e'⟩ = false := by
  obtain ⟨front, w, hending⟩ := components_ending text
  rw [same, hending e he hlen, hending e' he' hlen']
  simpa [String.append_right_inj] using hne

theorem same_refl (p : Path) : p.same p = true := beq_self_eq_true p.components

/-- What stands before an ending does not depend on it. -/
theorem join_ending (p : Path) {s : String} (hs : s ≠ "") : ∃ text, ∀ e,
    p / (s ++ e) = ⟨text ++ e⟩ := by
  have hhead : ∀ e : String, (s ++ e).toList.head? = s.toList.head? := by
    intro e
    cases hc : s.toList with
    | nil => exact absurd (String.toList_eq_nil_iff.mp hc) hs
    | cons c cs => simp [hc]
  have hjoin : ∀ e, p / (s ++ e) =
      if s.toList.head? == some '/' then ⟨s ++ e⟩
      else if p.text == "" || p.text.toList.getLast? == some '/' then ⟨p.text ++ (s ++ e)⟩
      else ⟨p.text ++ "/" ++ (s ++ e)⟩ := by
    intro e
    rw [← hhead e]
    rfl
  by_cases habsolute : (s.toList.head? == some '/') = true
  · exact ⟨s, fun e => by rw [hjoin, if_pos habsolute]⟩
  · by_cases hbare : (p.text == "" || p.text.toList.getLast? == some '/') = true
    · exact ⟨p.text ++ s, fun e => by
        rw [hjoin, if_neg habsolute, if_pos hbare, String.append_assoc]⟩
    · exact ⟨p.text ++ "/" ++ s, fun e => by
        rw [hjoin, if_neg habsolute, if_neg hbare, ← String.append_assoc]⟩

end Path

namespace LogFiles

/-- Names that a session gives to its log and its summary. -/
def Resolved (f : LogFiles) : Prop :=
  ∃ logsDirectory user platform process explicit cwd,
    f = resolve logsDirectory user platform process explicit cwd

/-- A file is published under its own name or under another route, and the log is never the
summary. -/
structure Distinct (f : LogFiles) : Prop where
  log : f.tmpLogFile = f.logFile ∨ f.tmpLogFile.same f.logFile = false
  summary : f.tmpSummaryFile = f.summaryFile ∨ f.tmpSummaryFile.same f.summaryFile = false
  published : f.logFile ≠ f.summaryFile
  written : f.tmpLogFile ≠ f.tmpSummaryFile
  across : f.logFile ≠ f.tmpSummaryFile
  back : f.tmpLogFile ≠ f.summaryFile

theorem ne_of_length {p q : Path} (h : p.text.length ≠ q.text.length) : p ≠ q :=
  fun he => h (congrArg (fun r : Path => r.text.length) he)

/-- How the names of a process end. -/
theorem ending_of_process (n : Nat) : '/' ∉ (".pid" ++ toString n ++ ".log").toList ∧
    8 < (".pid" ++ toString n ++ ".log").length ∧
    ".pid" ++ toString n ++ ".log" ≠ ".log.summary" := by
  have hdigits : '/' ∉ Nat.toDigits 10 n := Text.not_mem_digits (by decide) n
  have hsome : 0 < (toString n).length := Nat.length_repr_pos
  refine ⟨?_, ?_, ?_⟩
  · simpa using hdigits
  · have hpid : ".pid".length = 4 := by decide
    have hlog : ".log".length = 4 := by decide
    rw [String.length_append, String.length_append]
    omega
  · intro h
    have hletters := congrArg String.toList h
    simp at hletters

theorem Resolved.distinct {f : LogFiles} (h : f.Resolved) : f.Distinct := by
  obtain ⟨directory, user, platform, process, explicit, cwd, rfl⟩ := h
  cases explicit with
  | some p =>
    have hsummary : ".summary".length = 8 := by decide
    have hne : cwd / p.text ≠ ⟨(cwd / p.text).text ++ ".summary"⟩ :=
      ne_of_length (by rw [String.length_append]; omega)
    exact ⟨.inl rfl, .inl rfl, hne, hne, hne, hne⟩
  | none =>
    have hfilled : user ++ "." ++ platform ≠ "" := by
      intro h
      have hlength := congrArg String.length h
      simp [String.length_append] at hlength
    obtain ⟨text, hjoin⟩ := directory.join_ending hfilled
    obtain ⟨hwhole, hlong, hother⟩ := ending_of_process process
    have hlog : directory / (user ++ "." ++ platform ++ ".log") = ⟨text ++ ".log"⟩ := hjoin ".log"
    have htmp : directory / (user ++ "." ++ platform ++ ".pid" ++ toString process ++ ".log") =
        ⟨text ++ (".pid" ++ toString process ++ ".log")⟩ := by
      rw [← hjoin]
      simp only [String.append_assoc]
    simp only [resolve, withSummary, hlog, htmp]
    generalize ".pid" ++ toString process ++ ".log" = own at hwhole hlong hother
    have hlogLength : ".log".length = 4 := by decide
    have hsummaryLength : ".summary".length = 8 := by decide
    refine ⟨.inr ?_, .inr ?_, ?_, ?_, ?_, ?_⟩
    · refine Path.same_ending text hwhole (by omega) (by decide) (by decide) fun h => ?_
      rw [h] at hlong
      omega
    · simp only [String.append_assoc]
      have hwhole' : '/' ∉ (own ++ ".summary").toList := by simpa using hwhole
      have hlong' : 3 ≤ (own ++ ".summary").length := by
        rw [String.length_append]
        omega
      refine Path.same_ending text hwhole' hlong' (by decide) (by decide) fun h => ?_
      rw [String.append_left_inj] at h
      rw [h] at hlong
      omega
    · exact ne_of_length (by simp only [String.length_append]; omega)
    · exact ne_of_length (by simp only [String.length_append]; omega)
    · exact ne_of_length (by simp only [String.length_append]; omega)
    · intro h
      have htexts := congrArg Path.text h
      simp only [String.append_assoc, String.append_right_inj] at htexts
      exact hother htexts

end LogFiles

end Regression
