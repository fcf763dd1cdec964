import AutotestClient.Model.Harness.Accounts
import Mathlib.Tactic.Common

/-! # What the reporting functions change

Printing touches the console only, a verdict helper also the results. The callers use
these facts and never unfold a helper. -/

namespace AutotestClient.Harness

variable {s s' s'' : State} {rc : ℤ} {ms : List String}

/-- The two states differ in their consoles at most, and `$stderr` is the same file. -/
def Prints (s s' : State) : Prop :=
  ∃ c, s' = { s with console := c } ∧ c.stderrIsNull = s.console.stderrIsNull

/-- The two states differ in their consoles and results at most. -/
def Reports (s s' : State) : Prop :=
  ∃ c r, s' = { s with console := c, results := r } ∧ c.stderrIsNull = s.console.stderrIsNull

theorem Prints.refl (s : State) : Prints s s := ⟨s.console, rfl, rfl⟩

theorem Prints.trans (h : Prints s s') (h' : Prints s' s'') : Prints s s'' := by
  obtain ⟨c, rfl, hc⟩ := h
  obtain ⟨c', rfl, hc'⟩ := h'
  exact ⟨c', rfl, hc'.trans hc⟩

theorem Prints.reports (h : Prints s s') : Reports s s' := by
  obtain ⟨c, rfl, hc⟩ := h
  exact ⟨c, s.results, rfl, hc⟩

theorem Reports.refl (s : State) : Reports s s := (Prints.refl s).reports

theorem Reports.trans (h : Reports s s') (h' : Reports s' s'') : Reports s s'' := by
  obtain ⟨c, r, rfl, hc⟩ := h
  obtain ⟨c', r', rfl, hc'⟩ := h'
  exact ⟨c', r', rfl, hc'.trans hc⟩

/-! ## Printing -/

theorem prints_echo (s : State) (l : Line) : Prints s (s.echo l) := ⟨_, rfl, rfl⟩

theorem prints_foldl (f : State → String → Line) (ms : List String) (s : State) :
    Prints s (ms.foldl (fun s m => s.echo (f s m)) s) := by
  induction ms generalizing s with
  | nil => exact Prints.refl s
  | cons m ms ih => exact (prints_echo s (f s m)).trans (ih _)

theorem prints_tcInfo (ms : List String) (s : State) : Prints s (tcInfo ms s) :=
  prints_foldl _ ms s

theorem prints_setFiles (s : State) (stdout stderr : String) :
    Prints s (s.setFiles stdout stderr) :=
  ⟨_, rfl, rfl⟩

theorem prints_showFile (file text : String) (s : State) : Prints s (showFile file text s) := by
  refine Prints.trans ?_ (prints_tcInfo _ _)
  exact (prints_tcInfo _ s).trans ((prints_echo _ _).trans (prints_echo _ _))

theorem prints_dumpStdout (s : State) : Prints s (dumpStdout s) := by
  unfold dumpStdout
  split
  · exact (prints_showFile _ _ s).trans ⟨_, rfl, rfl⟩
  · exact Prints.refl s

theorem prints_dumpStderr (s : State) : Prints s (dumpStderr s) := by
  unfold dumpStderr
  split
  · exact (prints_showFile _ _ s).trans ⟨_, rfl, rfl⟩
  · exact Prints.refl s

theorem prints_tcInternalDump (rc : ℤ) (ms : List String) (s : State) :
    Prints s (tcInternalDump rc ms s).1 :=
  ((prints_tcInfo _ s).trans (prints_dumpStdout _)).trans (prints_dumpStderr _)

theorem prints_reportFailure (line : Line) (rc : ℤ) (ms : List String) (s : State) :
    Prints s (reportFailure line rc ms s).1 := by
  refine Prints.trans ?_ (prints_tcInfo _ _)
  exact ((prints_tcInfo _ s).trans (prints_echo _ line)).trans (prints_tcInternalDump _ _ _)

/-- The status after a dump is the return code, unless that is 0. -/
theorem reportFailure_status (line : Line) (ms : List String) (s : State) (hrc : rc ≠ 0) :
    (reportFailure line rc ms s).2 = exitCode rc := by
  simp [reportFailure, tcInternalDump, hrc]

/-! ## Verdicts -/

/-- The helpers that may fail the test do so on a bad return code or a non-empty
`$stderr`. -/
theorem tcPassOrFail_fail (hbad : rc ≠ 0 ∨ s.stderrNonempty = true) :
    Prints s.recordFail (tcPassOrFail rc ms s).1 := by
  have hneg : ¬ (rc = 0 ∧ s.stderrNonempty = false) := by
    rcases hbad with h | h <;> simp [h]
  rw [tcPassOrFail, if_neg hneg]
  exact prints_reportFailure _ _ _ _

theorem tcPassOrFail_pass (hrc : rc = 0) (herr : s.stderrNonempty = false) :
    Prints s (tcPassOrFail rc ms s).1 := by
  rw [tcPassOrFail, if_pos ⟨hrc, herr⟩]
  exact prints_echo _ _

theorem tcFailIfBad_fail (hbad : rc ≠ 0 ∨ s.stderrNonempty = true) :
    Prints s.recordFail (tcFailIfBad rc ms s).1 := by
  rw [tcFailIfBad, if_pos hbad]
  exact tcPassOrFail_fail hbad

theorem tcFailIfBad_pass (hrc : rc = 0) (herr : s.stderrNonempty = false) :
    tcFailIfBad rc ms s = (s, 0) := by
  simp [tcFailIfBad, hrc, herr]

theorem tcFailIfBad_status (hrc : rc ≠ 0) : (tcFailIfBad rc ms s).2 = exitCode rc := by
  rw [tcFailIfBad, if_pos (.inl hrc), tcPassOrFail, if_neg (by simp [hrc])]
  exact reportFailure_status _ _ _ hrc

theorem tcBreakIfBad_brok (hbad : rc ≠ 0 ∨ s.stderrNonempty = true) :
    Prints s.recordBrok (tcBreakIfBad rc ms s).1 := by
  have hneg : ¬ (rc = 0 ∧ s.stderrNonempty = false) := by
    rcases hbad with h | h <;> simp [h]
  rw [tcBreakIfBad, if_neg hneg]
  exact prints_reportFailure _ _ _ _

theorem tcBreakIfBad_pass (hrc : rc = 0) (herr : s.stderrNonempty = false) :
    tcBreakIfBad rc ms s = (s, 0) := by
  simp [tcBreakIfBad, hrc, herr]

theorem reports_tcBreakIfBad (rc : ℤ) (ms : List String) (s : State) :
    Reports s (tcBreakIfBad rc ms s).1 := by
  by_cases hbad : rc ≠ 0 ∨ s.stderrNonempty = true
  · exact Reports.trans ⟨s.console, _, rfl, rfl⟩ (tcBreakIfBad_brok hbad).reports
  · simp only [not_or, not_not, Bool.not_eq_true] at hbad
    rw [tcBreakIfBad_pass hbad.1 hbad.2]
    exact Reports.refl s

theorem Prints.restoreStderr {null : Bool} (h : Prints (s.setStderrNull null) s') :
    Prints s (s'.setStderrNull s.console.stderrIsNull) := by
  obtain ⟨c, rfl, -⟩ := h
  exact ⟨_, rfl, rfl⟩

/-- With `$stderr` at `/dev/null` only the return code counts. -/
theorem tcFailIfBadRc_fail (hrc : rc ≠ 0) : Prints s.recordFail (tcFailIfBadRc rc ms s).1 := by
  have h : Prints (s.recordFail.setStderrNull true) (tcFailIfBad rc ms (s.setStderrNull true)).1 :=
    tcFailIfBad_fail (s := s.setStderrNull true) (.inl hrc)
  exact h.restoreStderr

theorem tcFailIfBadRc_status (hrc : rc ≠ 0) : (tcFailIfBadRc rc ms s).2 = exitCode rc :=
  tcFailIfBad_status hrc

theorem tcFailIfBadRc_pass : tcFailIfBadRc 0 ms s = (s, 0) := by
  rw [tcFailIfBadRc, ignoringStderr, tcFailIfBad_pass rfl rfl]
  rfl

/-- The function called `tc_break_if_bad_rc` records a FAIL. -/
theorem tcBreakIfBadRc_eq : tcBreakIfBadRc rc ms s = tcFailIfBadRc rc ms s := rfl

theorem tcBreakIfBadRc_pass : tcBreakIfBadRc 0 ms s = (s, 0) := tcFailIfBadRc_pass

/-- A test of the harness itself that fails, as when a command is not installed. -/
theorem tcBreakIfBadRc_status_one : (tcBreakIfBadRc 1 ms s).2 = 1 :=
  tcFailIfBadRc_status Int.one_ne_zero

theorem reports_recordFail (s : State) : Reports s s.recordFail := ⟨s.console, _, rfl, rfl⟩

theorem reports_tcBreakIfBadRc (rc : ℤ) (ms : List String) (s : State) :
    Reports s (tcBreakIfBadRc rc ms s).1 := by
  by_cases hrc : rc = 0
  · subst hrc
    rw [tcBreakIfBadRc_pass]
    exact Reports.refl s
  · exact (reports_recordFail s).trans (tcFailIfBadRc_fail hrc).reports

theorem exitCode_natCast {n : ℕ} (hn : n < 256) : exitCode n = n := by
  unfold exitCode
  omega

/-- How callers use `tc_break_if_bad_rc $? … || return`. -/
theorem tcBreakIfBadRc_cases (n : ℕ) (hn : n < 256) (ms : List String) (s : State) :
    n = 0 ∧ tcBreakIfBadRc n ms s = (s, 0) ∨
      n ≠ 0 ∧ Prints s.recordFail (tcBreakIfBadRc n ms s).1 ∧ (tcBreakIfBadRc n ms s).2 = n := by
  by_cases h0 : n = 0
  · subst h0
    exact .inl ⟨rfl, tcFailIfBadRc_pass⟩
  · have hrc : (n : ℤ) ≠ 0 := by exact_mod_cast h0
    refine .inr ⟨h0, tcFailIfBadRc_fail hrc, ?_⟩
    rw [tcBreakIfBadRc_eq, tcFailIfBadRc_status hrc, exitCode_natCast hn]

/-! ## Deleting groups -/

/-- Even with no group to delete there must be a command to do it. -/
theorem tcDelGroupOrBreak_missing (answers : ℕ → Answer) (name : String) (s : State) :
    Prints s.recordFail (tcDelGroupOrBreak .missing answers name s).1 := by
  simp only [tcDelGroupOrBreak, ne_eq, not_true_eq_false, if_false, tcBreakIfBadRc_status_one,
    Nat.one_ne_zero, not_false_eq_true, if_true]
  exact tcFailIfBadRc_fail Int.one_ne_zero

theorem tcDelGroupOrBreak_eq {tool : Tool} (hm : tool ≠ .missing) (answers : ℕ → Answer)
    (name : String) (s : State) :
    tcDelGroupOrBreak tool answers name s =
      storeGroups (delGroups name s.groups.listed answers [] s) := by
  simp only [tcDelGroupOrBreak, hm, ne_eq, not_false_eq_true, if_true, tcBreakIfBadRc_pass,
    not_true_eq_false, if_false]

end AutotestClient.Harness
