import Regression.Proofs.Names
import Regression.Proofs.Tended

namespace Regression

open Text (Bytes)

variable {m m' : Machine} {names : List Path} {source target : Path}

namespace LogFiles

theorem publishOne_idle (h : source.same target = true ∨ m.isFile source = false) :
    (publishOne source target).on m = (.ok (), m) := by
  have hidle : (!source.same target && m.isFile source) = false := by
    rcases h with h | h <;> simp [h]
  unfold publishOne
  rw [Job.on_bind_ok (Job.on_get m), hidle, if_neg Bool.false_ne_true]
  rfl

theorem publishOne_edits (hdiffer : source.same target = false) (hfile : m.isFile source = true)
    (hok : (publishOne source target).on m = (.ok (), m')) : ∃ t₁ t₂,
      m.files.copyFile m.directory source target = .ok t₁ ∧
        t₁.removeFile m.directory source = .ok t₂ ∧ m' = { m with files := t₂ } := by
  unfold publishOne at hok
  rw [Job.on_bind_ok (Job.on_get m), hdiffer, hfile] at hok
  obtain ⟨_, m₁, hcopy, hremove⟩ := Job.bind_ok hok
  obtain ⟨t₁, hcopied, rfl⟩ := keep_ok hcopy
  obtain ⟨t₂, hremoved, rfl⟩ := keep_ok hremove
  exact ⟨t₁, t₂, hcopied, hremoved, rfl⟩

/-- Publishing one file leaves all other names as they are, and moves what lies there. -/
theorem publishOne_ok (h : m.files.Apart m.directory names) (hs : source ∈ names)
    (ht : target ∈ names) (hd : source = target ∨ source.same target = false)
    (hok : (publishOne source target).on m = (.ok (), m')) :
    Telling m m' [] ∧ m'.files.Apart m.directory names ∧
      (∀ p ∈ names, p ≠ source → p ≠ target →
        m'.files.spot m.directory p = m.files.spot m.directory p) ∧
      ∀ bytes, m.files.Holds m.directory source bytes →
        m'.files.Holds m.directory target bytes ∧
          (source ≠ target → m'.files.Vacant m.directory source) := by
  by_cases hmoves : source.same target = false ∧ m.isFile source = true
  · obtain ⟨hdiffer, hthere⟩ := hmoves
    have hne : source ≠ target := by
      rintro rfl
      rw [Path.same_refl] at hdiffer
      cases hdiffer
    obtain ⟨files₁, files₂, hcopied, hremoved, rfl⟩ := publishOne_edits hdiffer hthere hok
    obtain ⟨l, o, hsource, hplain⟩ := h.plain source hs
    have hfile : ∃ k mode bytes, o = some (.file k mode bytes) := by
      rcases hplain.cases with rfl | hfile
      · have hfind := FileTree.find_of_spot_none hsource
        simp [Machine.isFile, FileTree.isFile, hfind] at hthere
      · exact hfile
    obtain ⟨k, mode, bytes, rfl⟩ := hfile
    obtain ⟨k', hwrote⟩ := h.copyFile hs ht hne hsource hcopied
    obtain ⟨hvacant, hapart, hothers⟩ := hwrote.apart.removeFile hs hremoved
    refine ⟨⟨rfl, rfl, rfl, rfl, rfl⟩, hapart, ?_, ?_⟩
    · intro p hp hps hpt
      rw [← hwrote.others p hp hpt]
      exact hothers p hp hps
    · intro bytes' hbytes
      obtain ⟨l', k'', mode', hbytes⟩ := hbytes
      rw [hsource] at hbytes
      cases hbytes
      obtain ⟨l₁, mode₁, hhere⟩ := hwrote.here
      refine ⟨⟨l₁, k', mode₁, ?_⟩, fun _ => hvacant⟩
      rw [← hhere]
      exact hothers target ht (Ne.symm hne)
  · have hidle : source.same target = true ∨ m.isFile source = false := by
      simpa [or_iff_not_imp_left] using hmoves
    rw [publishOne_idle hidle] at hok
    cases hok
    refine ⟨⟨rfl, rfl, rfl, rfl, rfl⟩, h, fun p _ _ _ => rfl, ?_⟩
    intro bytes hbytes
    obtain ⟨l, k, mode, hfile⟩ := hbytes
    have hthere : m.isFile source = true := by
      simp [Machine.isFile, FileTree.isFile, FileTree.find_of_spot hfile, Node.isFile]
    rcases hd with rfl | hother
    · exact ⟨⟨l, k, mode, hfile⟩, fun hne => absurd rfl hne⟩
    · simp [hother, hthere] at hmoves

/-- What is published: the log and the summary lie under their final names, and nothing is left under
names of their own. -/
theorem publish_ok {f : LogFiles} (h : m.files.Apart m.directory f.names) (hf : f.Distinct)
    (hok : f.publish.on m = (.ok (), m')) :
    Telling m m' [] ∧ m'.files.Apart m.directory f.names ∧
      (∀ bytes, m.files.Holds m.directory f.tmpLogFile bytes →
        m'.files.Holds m.directory f.logFile bytes ∧
          (f.tmpLogFile ≠ f.logFile → m'.files.Vacant m.directory f.tmpLogFile)) ∧
      ∀ bytes, m.files.Holds m.directory f.tmpSummaryFile bytes →
        m'.files.Holds m.directory f.summaryFile bytes := by
  obtain ⟨_, m₁, hlog, hsummary⟩ := Job.bind_ok hok
  obtain ⟨htold₁, h₁, hothers₁, hmoved₁⟩ :=
    publishOne_ok h (by simp [names]) (by simp [names]) hf.log hlog
  rw [← htold₁.directory] at h₁
  obtain ⟨htold₂, h₂, hothers₂, hmoved₂⟩ :=
    publishOne_ok h₁ (by simp [names]) (by simp [names]) hf.summary hsummary
  rw [htold₁.directory] at h₂ hothers₂ hmoved₂
  refine ⟨htold₁.trans htold₂, h₂, ?_, ?_⟩
  · intro bytes hbytes
    obtain ⟨hholds, hvacant⟩ := hmoved₁ bytes hbytes
    refine ⟨?_, fun hne => ?_⟩
    · unfold FileTree.Holds
      rw [hothers₂ f.logFile (by simp [names]) hf.across hf.published]
      exact hholds
    · unfold FileTree.Vacant
      rw [hothers₂ f.tmpLogFile f.tmpLogFile_mem hf.written hf.back]
      exact hvacant hne
  · intro bytes hbytes
    refine (hmoved₂ bytes ?_).1
    unfold FileTree.Holds
    rw [hothers₁ f.tmpSummaryFile (by simp [names]) (Ne.symm hf.written) (Ne.symm hf.across)]
    exact hbytes

end LogFiles

end Regression
