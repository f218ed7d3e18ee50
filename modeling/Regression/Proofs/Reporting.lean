import Regression.Proofs.Lines
import Regression.Proofs.Names
import Regression.Proofs.Tended

namespace Regression

open Text (Bytes)

/-- The block that closes a log is a message of whole lines. -/
theorem Summary.trimEnd_render (s : Summary) (date : String) :
    Text.trimEnd (s.render date) ++ "\n" = s.render date := by
  obtain ⟨front, hfront⟩ : ∃ front, s.render date = front ++ " ]\n[END]\n" := ⟨_, rfl⟩
  have hlast : " ]\n[END]\n" = " ]\n[END]" ++ "\n" := by decide
  have hseen : " ]\n[END]".toList.getLast? = some ']' := by decide
  rw [hfront, hlast, ← String.append_assoc, Text.trimEnd_line hseen (by decide)]

namespace Session

variable {s : Session} {m m' : Machine} {text : String}

/-- What the session says of skipped tests while the log is closed. -/
def skipRemark (summary : Summary) : List String :=
  if 0 < summary.skippedStdin then
    ["[Skipped " ++ toString summary.skippedStdin ++ " tests with .stdin input]"]
  else []

/-- The last messages before the log is scanned. -/
def lastMessages (s : Session) (m : Machine) : List String :=
  ["[Done with tests - " ++ m.clock.runStamp ++ "]",
    "[Log file: " ++ s.files.logFile.text ++ " ]", ""]

/-- What the file system has to grant for a report: the log can be read back and opened again, and
its summary can be written. -/
structure Keepable (s : Session) (m : Machine) : Prop where
  read : (m.files.read m.directory s.files.tmpLogFile).isOk
  reopen : (m.files.openFile m.directory s.files.tmpLogFile .append .newFile).isOk
  summary : (m.files.openFile m.directory s.files.tmpSummaryFile .afresh .newFile).isOk

/-- Contents do not count. -/
theorem Keepable.alike (h : s.Keepable m) (hfiles : m'.files.outline = m.files.outline)
    (hdirectory : m'.directory = m.directory) : s.Keepable m' := by
  refine ⟨?_, ?_, ?_⟩
  · rw [← FileTree.read_outline, hfiles, FileTree.read_outline, hdirectory]
    exact h.read
  · rw [← FileTree.openFile_outline, hfiles, FileTree.openFile_outline, hdirectory]
    exact h.reopen
  · rw [← FileTree.openFile_outline, hfiles, FileTree.openFile_outline, hdirectory]
    exact h.summary

/-- The last messages are written and the log is closed. -/
theorem close_on {f : LogFiles} (h : Tended f m text) {α : Type} (rest : Job α) : ∃ m',
    Shut f m' (text ++ written (s.lastMessages m)) ∧ Telling m m' (s.lastMessages m) ∧
      m'.files.outline = m.files.outline ∧
      Job.on (do
        note ("[Done with tests - " ++ m.clock.runStamp ++ "]")
        note ("[Log file: " ++ s.files.logFile.text ++ " ]")
        noteBlank
        stopLog
        rest) m = rest.on m' := by
  obtain ⟨m₁, hrun₁, h₁, htold₁, houtline₁, -⟩ :=
    h.note ("[Done with tests - " ++ m.clock.runStamp ++ "]")
  obtain ⟨m₂, hrun₂, h₂, htold₂, houtline₂, -⟩ :=
    h₁.note ("[Log file: " ++ s.files.logFile.text ++ " ]")
  obtain ⟨m₃, hrun₃, h₃, htold₃, houtline₃, -⟩ := h₂.note ""
  obtain ⟨m₄, hstop, h₄, htold₄, hfiles₄⟩ := h₃.stop
  rw [Text.trimEnd_seen (t := "]") (c := ']') (by decide) (by decide)] at h₄ htold₁
  rw [Text.trimEnd_seen (t := " ]") (c := ']') (by decide) (by decide)] at h₄ htold₂
  rw [Text.trimEnd_empty] at h₄ htold₃
  refine ⟨m₄, ?_, ?_, ?_, ?_⟩
  · simpa [written, lastMessages, String.append_assoc, String.join] using h₄
  · exact ((htold₁.trans htold₂).trans htold₃).trans htold₄
  · rw [hfiles₄, houtline₃, houtline₂, houtline₁]
  · have hlift : Job.on (liftM stopLog) m₃ = (.ok (), m₄) := by rw [Job.on_lift, hstop]
    rw [Job.on_bind_ok hrun₁, Job.on_bind_ok hrun₂, noteBlank, Job.on_bind_ok hrun₃,
      Job.on_bind_ok hlift]

/-- The remark on skipped tests reaches the console alone. -/
theorem remark_on {f : LogFiles} (h : Shut f m text) (summary : Summary) {α : Type}
    (rest : Unit → Job α) :
    ∃ m', Shut f m' text ∧ Telling m m' (skipRemark summary) ∧ m'.files = m.files ∧
      Job.on (if 0 < summary.skippedStdin then do
          let u ← note ("[Skipped " ++ toString summary.skippedStdin ++
            " tests with .stdin input]")
          rest u
        else rest ()) m = (rest ()).on m' := by
  by_cases hskipped : 0 < summary.skippedStdin
  · obtain ⟨m', hnote, h', htold, hfiles⟩ :=
      h.note ("[Skipped " ++ toString summary.skippedStdin ++ " tests with .stdin input]")
    rw [Text.trimEnd_seen (c := ']') (by decide) (by decide)] at htold
    refine ⟨m', h', ?_, hfiles, ?_⟩
    · rw [skipRemark, if_pos hskipped]
      exact htold
    · rw [if_pos hskipped, Job.on_bind_ok hnote]
  · refine ⟨m, h, ?_, rfl, by rw [if_neg hskipped]⟩
    rw [skipRemark, if_neg hskipped]
    exact ⟨rfl, rfl, rfl, rfl, rfl⟩

/-- The block goes to the end of the log and into the summary's own file. -/
theorem append_ok (h : Shut s.files m text) (hf : s.files.Distinct) {block : String}
    {summary answer : Summary} (hblock : Text.trimEnd block ++ "\n" = block)
    (hok : Job.on (do
      restartLog
      note block
      keep fun t cwd => t.writeFile cwd s.files.tmpSummaryFile (Text.encode block)
      return summary) m = (.ok answer, m')) :
    answer = summary ∧ Tended s.files m' (text ++ block) ∧ Telling m m' [Text.trimEnd block] ∧
      m'.files.Holds m.directory s.files.tmpSummaryFile (Text.encode block) ∧
      (m.files.openFile m.directory s.files.tmpLogFile .append .newFile).isOk ∧
      (m.files.openFile m.directory s.files.tmpSummaryFile .afresh .newFile).isOk := by
  obtain ⟨_, m₁, hrestart, hok⟩ := Job.bind_ok hok
  obtain ⟨h₁, htold₁, hfiles₁, hreopen⟩ := h.restart hrestart
  obtain ⟨m₂, hnote, h₂, htold₂, houtline₂, -⟩ := h₁.note block
  rw [Job.on_bind_ok hnote] at hok
  rw [hblock] at h₂
  obtain ⟨_, m₃, hkeep, hok⟩ := Job.bind_ok hok
  obtain ⟨files, hfiles, rfl⟩ := keep_ok hkeep
  cases hok
  have hmem : s.files.tmpSummaryFile ∈ s.files.names := by simp [LogFiles.names]
  have htold := htold₁.trans htold₂
  obtain ⟨k, hwrote⟩ := h₂.apart.writeFile hmem hfiles
  obtain ⟨l, mode, hsummary⟩ := hwrote.here
  obtain ⟨k', offset, hoffset, hopen, l', mode', hlog⟩ := h₂.log
  refine ⟨rfl, ⟨hwrote.apart, k', offset, hoffset, hopen, l', mode', ?_⟩, ?_, ⟨l, k, mode, ?_⟩,
    hreopen, ?_⟩
  · rw [← hlog]
    exact hwrote.others _ s.files.tmpLogFile_mem hf.written
  · exact ⟨htold.notes, htold.changes, htold.tools, htold.directory, htold.clock⟩
  · rw [← htold.directory]
    exact hsummary
  · obtain ⟨opened, hopened, -⟩ := FileTree.bind_ok hfiles
    rw [← FileTree.openFile_outline, ← hfiles₁, ← houtline₂, FileTree.openFile_outline,
      ← htold.directory, hopened]
    rfl

theorem summarize_ok (h : Tended s.files m text) (hf : s.files.Distinct) {summary : Summary}
    (hok : s.summarize.on m = (.ok summary, m')) :
    summary = Summary.ofLog s.settings.successMarker (text ++ written (s.lastMessages m)) ∧
      Tended s.files m' (text ++ written (s.lastMessages m) ++ summary.render m.clock.runStamp) ∧
      Telling m m' (s.lastMessages m ++ (skipRemark summary ++
        [Text.trimEnd (summary.render m.clock.runStamp)])) ∧
      m'.files.Holds m.directory s.files.tmpSummaryFile
        (Text.encode (summary.render m.clock.runStamp)) ∧ s.Keepable m := by
  unfold summarize at hok
  rw [Job.on_bind_ok (Job.on_get m)] at hok
  obtain ⟨m₁, h₁, htold₁, houtline₁, hclose⟩ := close_on h _
  rw [hclose] at hok
  obtain ⟨found, m₂, hread, hrest⟩ := Job.bind_ok hok
  obtain ⟨rfl, rfl, hreadable⟩ := h₁.readText hread
  simp only at hrest
  generalize Summary.ofLog s.settings.successMarker (text ++ written (s.lastMessages m)) = summed
    at hrest ⊢
  obtain ⟨m₃, h₃, htold₃, hfiles₃, hremark⟩ := remark_on h₁ summed _
  rw [hremark] at hrest
  obtain ⟨rfl, hm', htold', hholds, hreopen, hsummary⟩ :=
    append_ok h₃ hf (Summary.trimEnd_render _ _) hrest
  have htold := htold₁.trans htold₃
  rw [hfiles₃, htold₃.directory] at hreopen hsummary
  refine ⟨rfl, hm', ?_, ?_, ?_⟩
  · rw [← List.append_assoc]
    exact htold.trans htold'
  · rw [← htold.directory]
    exact hholds
  · exact Keepable.alike ⟨hreadable, hreopen, hsummary⟩ houtline₁.symm htold₁.directory.symm

/-- A report succeeds just where the file system grants what it takes. -/
theorem summarize_succeeds (h : Tended s.files m text) (hk : s.Keepable m) :
    ∃ summary m', s.summarize.on m = (.ok summary, m') := by
  unfold summarize
  rw [Job.on_bind_ok (Job.on_get m)]
  obtain ⟨m₁, h₁, htold₁, houtline₁, hclose⟩ := close_on h _
  rw [hclose]
  have hk₁ := hk.alike houtline₁ htold₁.directory
  rw [Job.on_bind_ok (h₁.readText_succeeds hk₁.read)]
  simp only
  generalize Summary.ofLog s.settings.successMarker (text ++ written (s.lastMessages m)) = summed
  obtain ⟨m₂, h₂, htold₂, hfiles₂, hremark⟩ := remark_on h₁ summed _
  rw [hremark]
  have hk₂ := hk₁.alike (congrArg _ hfiles₂) htold₂.directory
  obtain ⟨m₃, hrestart⟩ := h₂.restart_succeeds hk₂.reopen
  obtain ⟨h₃, htold₃, hfiles₃, -⟩ := h₂.restart hrestart
  have hk₃ := hk₂.alike (congrArg _ hfiles₃) htold₃.directory
  obtain ⟨m₄, hnote, h₄, htold₄, houtline₄, -⟩ := h₃.note (summed.render m.clock.runStamp)
  have hk₄ := hk₃.alike houtline₄ htold₄.directory
  obtain ⟨files, hwrite⟩ := h₄.apart.writeFile_succeeds (by simp [LogFiles.names]) hk₄.summary
    (Text.encode (summed.render m.clock.runStamp))
  rw [Job.on_bind_ok hrestart, Job.on_bind_ok hnote]
  have hkeep : (keep fun t cwd => t.writeFile cwd s.files.tmpSummaryFile
      (Text.encode (summed.render m.clock.runStamp))).on m₄ = (.ok (), { m₄ with files }) := by
    rw [keep_on, hwrite]
  exact ⟨summed, _, Job.on_bind_ok hkeep _⟩

theorem report_ok (h : Tended s.files m text) (hf : s.files.Distinct)
    (hclean : s.settings.cleanOnly = false) {summary : Option Summary}
    (hok : s.report.on m = (.ok summary, m')) : ∃ summed,
      summary = some summed ∧
      summed = Summary.ofLog s.settings.successMarker (text ++ written (s.lastMessages m)) ∧
      Tended s.files m'
        (text ++ written (s.lastMessages m) ++ summed.render m.clock.runStamp ++ "\n") ∧
      Telling m m' (s.lastMessages m ++ (skipRemark summed ++
        [Text.trimEnd (summed.render m.clock.runStamp)]) ++ [""]) ∧
      m'.files.Holds m.directory s.files.tmpSummaryFile
        (Text.encode (summed.render m.clock.runStamp)) ∧ s.Keepable m := by
  unfold report at hok
  simp only [hclean, Bool.false_eq_true, ↓reduceIte] at hok
  obtain ⟨answer, m₁, hsummarize, hok⟩ := Job.bind_ok hok
  rw [map_eq_pure_bind] at hsummarize
  obtain ⟨summed, m₂, hsummarize, hanswer⟩ := Job.bind_ok hsummarize
  cases hanswer
  obtain ⟨hsummed, h₁, htold₁, ⟨l, k, mode, hsummary⟩, hk⟩ := summarize_ok h hf hsummarize
  obtain ⟨m₂, hblank, h₂, htold₂, -, hothers⟩ := h₁.note ""
  rw [noteBlank, Job.on_bind_ok hblank] at hok
  cases hok
  rw [Text.trimEnd_empty] at h₂ htold₂
  have hmem : s.files.tmpSummaryFile ∈ s.files.names := by simp [LogFiles.names]
  refine ⟨summed, rfl, hsummed, ?_, htold₁.trans htold₂, ⟨l, k, mode, ?_⟩, hk⟩
  · simpa using h₂
  · have hkept := hothers _ hmem (Ne.symm hf.written)
    rw [htold₁.directory] at hkept
    rw [hkept, hsummary]

theorem report_succeeds (h : Tended s.files m text) (hf : s.files.Distinct)
    (hclean : s.settings.cleanOnly = false) (hk : s.Keepable m) :
    ∃ summary m', s.report.on m = (.ok summary, m') := by
  obtain ⟨summed, m₁, hsummarize⟩ := summarize_succeeds h hk
  obtain ⟨-, h₁, -⟩ := summarize_ok h hf hsummarize
  obtain ⟨m₂, hblank, -⟩ := h₁.note ""
  have hsome : (some <$> s.summarize).on m = (.ok (some summed), m₁) := by
    rw [map_eq_pure_bind, Job.on_bind_ok hsummarize, Job.on_pure]
  refine ⟨some summed, m₂, ?_⟩
  unfold report
  simp only [hclean, Bool.false_eq_true, ↓reduceIte]
  rw [Job.on_bind_ok hsome, noteBlank, Job.on_bind_ok hblank, Job.on_pure]

/-- A report whose summary cannot be written fails, and of the tree it changes contents alone. The log
has been told of the summary by then: `f` is where it is kept, the place of the summary apart. -/
theorem report_unwritten {f : LogFiles} (h : Tended f m text)
    (hlog : s.files.tmpLogFile = f.tmpLogFile) (hclean : s.settings.cleanOnly = false)
    (hread : (m.files.read m.directory f.tmpLogFile).isOk)
    (hreopen : (m.files.openFile m.directory f.tmpLogFile .append .newFile).isOk)
    (hsummary : (m.files.openFile m.directory s.files.tmpSummaryFile .afresh .newFile).isOk = false) :
    ∃ e m', s.report.on m = (.error e, m') ∧ m'.files.outline = m.files.outline ∧
      m'.directory = m.directory := by
  obtain ⟨m₁, h₁, htold₁, houtline₁, hclose⟩ := close_on (s := s) h _
  have hread₁ : (m₁.files.read m₁.directory f.tmpLogFile).isOk := by
    rw [← FileTree.read_outline, houtline₁, FileTree.read_outline, htold₁.directory]
    exact hread
  generalize hsummed :
    Summary.ofLog s.settings.successMarker (text ++ written (s.lastMessages m)) = summed
  obtain ⟨m₂, h₂, htold₂, hfiles₂, hremark⟩ := remark_on h₁ summed _
  have hreopen₂ : (m₂.files.openFile m₂.directory f.tmpLogFile .append .newFile).isOk := by
    rw [hfiles₂, ← FileTree.openFile_outline, houtline₁, FileTree.openFile_outline,
      htold₂.directory, htold₁.directory]
    exact hreopen
  obtain ⟨m₃, hrestart⟩ := h₂.restart_succeeds hreopen₂
  obtain ⟨h₃, htold₃, hfiles₃, -⟩ := h₂.restart hrestart
  obtain ⟨m₄, hnote, -, htold₄, houtline₄, -⟩ := h₃.note (summed.render m.clock.runStamp)
  have houtline : m₄.files.outline = m.files.outline := by
    rw [houtline₄, hfiles₃, hfiles₂, houtline₁]
  have hdirectory : m₄.directory = m.directory := by
    rw [htold₄.directory, htold₃.directory, htold₂.directory, htold₁.directory]
  rw [← FileTree.openFile_outline, ← houtline, FileTree.openFile_outline, ← hdirectory] at hsummary
  have hkeep : ∃ e, (keep fun t cwd => t.writeFile cwd s.files.tmpSummaryFile
      (Text.encode (summed.render m.clock.runStamp))).on m₄ = (.error e, m₄) := by
    rw [keep_on, FileTree.writeFile]
    cases hopen : m₄.files.openFile m₄.directory s.files.tmpSummaryFile .afresh .newFile with
    | ok opened =>
      rw [hopen] at hsummary
      cases hsummary
    | error fault => exact ⟨_, rfl⟩
  obtain ⟨e, hkeep⟩ := hkeep
  have hsummarize : s.summarize.on m = (.error e, m₄) := by
    unfold summarize
    rw [Job.on_bind_ok (Job.on_get m), hclose, hlog, Job.on_bind_ok (h₁.readText_succeeds hread₁)]
    simp only [hsummed]
    rw [hremark, Job.on_bind_ok hrestart, Job.on_bind_ok hnote, Job.on_bind, hkeep]
  refine ⟨e, m₄, ?_, houtline, hdirectory⟩
  unfold report
  simp only [hclean, Bool.false_eq_true, ↓reduceIte]
  rw [Job.on_bind, map_eq_pure_bind, Job.on_bind, hsummarize]

end Session

end Regression
