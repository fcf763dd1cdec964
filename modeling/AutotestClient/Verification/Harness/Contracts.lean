import AutotestClient.Model.Harness.Lifecycle
import AutotestClient.Verification.Harness.Reporting

/-! # What the verdict helpers promise

The comments above the helpers promise a return status for each of them, and that the
`_rc` variants do not look at `$stderr`. -/

namespace AutotestClient.Harness

variable {s s' s'' : State} {rc : ℤ} {ms : List String}

/-! ## Printing leaves `$stderr` alone -/

/-- The variable `$stderr` and the file of the testcase are the same. -/
structure KeepsStderr (s s' : State) : Prop where
  file : s'.console.stderr = s.console.stderr
  null : s'.console.stderrIsNull = s.console.stderrIsNull

theorem KeepsStderr.refl (s : State) : KeepsStderr s s := ⟨rfl, rfl⟩

theorem KeepsStderr.trans (h : KeepsStderr s s') (h' : KeepsStderr s' s'') : KeepsStderr s s'' :=
  ⟨h'.file.trans h.file, h'.null.trans h.null⟩

theorem KeepsStderr.nonempty (h : KeepsStderr s s') : s'.stderrNonempty = s.stderrNonempty := by
  rw [State.stderrNonempty, h.file, h.null]
  rfl

theorem keepsStderr_echo (s : State) (l : Line) : KeepsStderr s (s.echo l) := ⟨rfl, rfl⟩

theorem keepsStderr_recordFail (s : State) : KeepsStderr s s.recordFail := ⟨rfl, rfl⟩

theorem keepsStderr_tcInfo (ms : List String) (s : State) : KeepsStderr s (tcInfo ms s) := by
  unfold tcInfo
  induction ms generalizing s with
  | nil => exact KeepsStderr.refl s
  | cons m ms ih => exact (keepsStderr_echo s _).trans (ih _)

theorem keepsStderr_showFile (file text : String) (s : State) :
    KeepsStderr s (showFile file text s) := by
  have hbegin := keepsStderr_tcInfo ["============= " ++ file ++ " follows ============="] s
  apply KeepsStderr.trans _ (keepsStderr_tcInfo _ _)
  exact hbegin.trans ⟨rfl, rfl⟩

theorem keepsStderr_dumpStdout (s : State) : KeepsStderr s (dumpStdout s) := by
  unfold dumpStdout
  split
  · exact KeepsStderr.trans (keepsStderr_showFile "stdout" s.console.stdout s) ⟨rfl, rfl⟩
  · exact KeepsStderr.refl s

theorem dumpStderr_of_empty (h : s.stderrNonempty = false) : dumpStderr s = s := by
  simp [dumpStderr, h]

/-- With `$stderr` at `/dev/null` the file of the testcase is not shown and not emptied. -/
theorem keepsStderr_tcInternalDump (hnull : s.console.stderrIsNull = true) (rc : ℤ)
    (ms : List String) : KeepsStderr s (tcInternalDump rc ms s).1 := by
  have hout := (keepsStderr_tcInfo (ms ++ ["rc=" ++ toString rc]) s).trans
    (keepsStderr_dumpStdout _)
  have hempty : (dumpStdout (tcInfo (ms ++ ["rc=" ++ toString rc]) s)).stderrNonempty = false := by
    rw [hout.nonempty]
    simp [State.stderrNonempty, hnull]
  change KeepsStderr s (dumpStderr _)
  rw [dumpStderr_of_empty hempty]
  exact hout

theorem keepsStderr_reportFailure (hnull : s.console.stderrIsNull = true) (line : Line) (rc : ℤ)
    (ms : List String) : KeepsStderr s (reportFailure line rc ms s).1 := by
  have hbegin : KeepsStderr s
      ((tcInfo ["BEGIN FAILURE INFO STAGE " ++ toString s.tstCount] s).echo line) :=
    (keepsStderr_tcInfo _ s).trans ⟨rfl, rfl⟩
  apply KeepsStderr.trans _ (keepsStderr_tcInfo _ _)
  exact hbegin.trans (keepsStderr_tcInternalDump (hbegin.null.trans hnull) rc _)

theorem keepsStderr_tcConf (hnull : s.console.stderrIsNull = true) (prev : ℕ)
    (ms : List String) : KeepsStderr s (tcConf prev ms s).1 := by
  have hbegin : KeepsStderr s
      ((tcInfo ["BEGIN TCONF INFO STAGE " ++ toString s.tstCount] s).echo
        (.conf (tcInfo ["BEGIN TCONF INFO STAGE " ++ toString s.tstCount] s).tstCount
          (tcInfo ["BEGIN TCONF INFO STAGE " ++ toString s.tstCount] s).tcname (ms.headD ""))) :=
    (keepsStderr_tcInfo _ s).trans ⟨rfl, rfl⟩
  apply KeepsStderr.trans _ (keepsStderr_tcInfo _ _)
  exact hbegin.trans (keepsStderr_tcInternalDump (hbegin.null.trans hnull) prev _)

/-! ## Return statuses -/

/-- The return code, or 255 if only `$stderr` shows that something is bad. -/
def documentedStatus (rc : ℕ) (s : State) : ℕ :=
  if rc = 0 ∧ s.stderrNonempty = true then 255 else rc

theorem tcInternalDump_status (rc : ℤ) (ms : List String) (s : State) :
    (tcInternalDump rc ms s).2 =
      exitCode (if s.stderrNonempty = true ∧ rc = 0 then 255 else rc) := by
  have hout := (keepsStderr_tcInfo (ms ++ ["rc=" ++ toString rc]) s).trans
    (keepsStderr_dumpStdout _)
  simp only [tcInternalDump, hout.nonempty, Bool.and_eq_true, decide_eq_true_eq]

theorem reportFailure_status_eq (line : Line) (rc : ℤ) (ms : List String) (s : State) :
    (reportFailure line rc ms s).2 =
      exitCode (if s.stderrNonempty = true ∧ rc = 0 then 255 else rc) := by
  have hbegin : KeepsStderr s
      ((tcInfo ["BEGIN FAILURE INFO STAGE " ++ toString s.tstCount] s).echo line) :=
    (keepsStderr_tcInfo _ s).trans ⟨rfl, rfl⟩
  rw [← hbegin.nonempty]
  exact tcInternalDump_status rc _ _

/-- What the helpers that report in a state `t` return. -/
theorem reportFailure_documented {n : ℕ} (hn : n < 256) {t : State} (line : Line)
    (ht : t.stderrNonempty = s.stderrNonempty) :
    (reportFailure line n ms t).2 = documentedStatus n s := by
  rw [reportFailure_status_eq, ht, documentedStatus]
  by_cases hbad : n = 0 ∧ s.stderrNonempty = true
  · rw [if_pos hbad, if_pos ⟨hbad.2, by simp [hbad.1]⟩]
    rfl
  · rw [if_neg hbad, if_neg (fun h => hbad ⟨by simpa using h.2, h.1⟩), exitCode_natCast hn]

theorem documentedStatus_good (h : s.stderrNonempty = false) : documentedStatus 0 s = 0 := by
  simp [documentedStatus, h]

theorem tcPassOrFail_status {n : ℕ} (hn : n < 256) (ms : List String) (s : State) :
    (tcPassOrFail n ms s).2 = documentedStatus n s := by
  unfold tcPassOrFail
  split
  · rename_i hgood
    obtain rfl : n = 0 := by simpa using hgood.1
    exact (documentedStatus_good hgood.2).symm
  · exact reportFailure_documented hn _ rfl

theorem tcFailIfBad_status_eq {n : ℕ} (hn : n < 256) (ms : List String) (s : State) :
    (tcFailIfBad n ms s).2 = documentedStatus n s := by
  unfold tcFailIfBad
  split
  · exact tcPassOrFail_status hn ms s
  · rename_i hgood
    simp only [ne_eq, not_or, not_not, Bool.not_eq_true] at hgood
    obtain rfl : n = 0 := by simpa using hgood.1
    exact (documentedStatus_good hgood.2).symm

theorem tcBreakIfBad_status {n : ℕ} (hn : n < 256) (ms : List String) (s : State) :
    (tcBreakIfBad n ms s).2 = documentedStatus n s := by
  unfold tcBreakIfBad
  split
  · rename_i hgood
    obtain rfl : n = 0 := by simpa using hgood.1
    exact (documentedStatus_good hgood.2).symm
  · exact reportFailure_documented hn _ rfl

/-- `tc_conf_if_bad` returns its argument even if only `$stderr` was bad. -/
theorem tcConfIfBad_status {n : ℕ} (hn : n < 256) (ms : List String) (s : State) :
    (tcConfIfBad n ms s).2 = n := by
  unfold tcConfIfBad
  split
  · rename_i hgood
    have h0 : n = 0 := by simpa using hgood.1
    exact h0.symm
  · exact exitCode_natCast hn

/-! ## The variants that ignore `$stderr` -/

/-- The status is the return code, and the file and the variable are as before. -/
structure IgnoresStderr (f : State → State × ℕ) (rc : ℕ) (s : State) : Prop where
  status : (f s).2 = rc
  keeps : KeepsStderr s (f s).1

theorem documentedStatus_setStderrNull (n : ℕ) (s : State) :
    documentedStatus n (s.setStderrNull true) = n := by
  simp [documentedStatus, State.stderrNonempty, State.setStderrNull]

theorem ignoresStderr_ignoringStderr {f : State → State × ℕ} {n : ℕ}
    (hstatus : (f (s.setStderrNull true)).2 = n)
    (hkeeps : KeepsStderr (s.setStderrNull true) (f (s.setStderrNull true)).1) :
    IgnoresStderr (ignoringStderr f) n s :=
  ⟨hstatus, hkeeps.file, rfl⟩

theorem keepsStderr_tcFailIfBad (hnull : s.console.stderrIsNull = true) (rc : ℤ)
    (ms : List String) : KeepsStderr s (tcFailIfBad rc ms s).1 := by
  unfold tcFailIfBad tcPassOrFail
  split
  · split
    · exact keepsStderr_echo s _
    · have hnull' : s.recordFail.console.stderrIsNull = true := hnull
      exact (keepsStderr_recordFail s).trans (keepsStderr_reportFailure hnull' _ rc ms)
  · exact KeepsStderr.refl s

theorem ignoresStderr_tcFailIfBadRc {n : ℕ} (hn : n < 256) (ms : List String) (s : State) :
    IgnoresStderr (tcFailIfBadRc n ms) n s := by
  change IgnoresStderr (ignoringStderr (tcFailIfBad n ms)) n s
  apply ignoresStderr_ignoringStderr
  · rw [tcFailIfBad_status_eq hn, documentedStatus_setStderrNull]
  · exact keepsStderr_tcFailIfBad rfl n ms

theorem ignoresStderr_tcConfIfBadRc {n : ℕ} (hn : n < 256) (ms : List String) (s : State) :
    IgnoresStderr (tcConfIfBadRc n ms) n s := by
  change IgnoresStderr (ignoringStderr (tcConfIfBad n ms)) n s
  apply ignoresStderr_ignoringStderr
  · exact tcConfIfBad_status hn ms _
  · unfold tcConfIfBad
    split
    · exact KeepsStderr.refl _
    · exact keepsStderr_tcConf rfl _ ms

/-! ## All helpers -/

theorem documentedStatus_eq_zero_iff (n : ℕ) (s : State) :
    documentedStatus n s = 0 ↔ n = 0 ∧ s.stderrNonempty = false := by
  unfold documentedStatus
  split <;> simp_all

/-- The helpers keep what their comments promise except when only `$stderr` shows that
something is bad: `tc_conf_if_bad` then returns 0. -/
theorem verdictHelpers_status_iff {rc : ℕ} (hrc : rc < 256) (ms : List String) (s : State) :
    ((∀ f ∈ [tcPassOrFail, tcFailIfBad, tcBreakIfBad, tcConfIfBad],
          (f rc ms s).2 = (if rc = 0 ∧ s.stderrNonempty = true then 255 else rc) ∧
            ((f rc ms s).2 = 0 ↔ rc = 0 ∧ s.stderrNonempty = false)) ∧
        ∀ f ∈ [tcFailIfBadRc, tcBreakIfBadRc, tcConfIfBadRc], IgnoresStderr (f rc ms) rc s) ↔
      ¬(rc = 0 ∧ s.stderrNonempty = true) := by
  have hzero := documentedStatus_eq_zero_iff rc s
  have hrcs : ∀ f ∈ [tcFailIfBadRc, tcBreakIfBadRc, tcConfIfBadRc],
      IgnoresStderr (f rc ms) rc s := by
    simp only [List.forall_mem_cons, List.not_mem_nil, false_imp_iff, implies_true, and_true]
    exact ⟨ignoresStderr_tcFailIfBadRc hrc ms s, ignoresStderr_tcFailIfBadRc hrc ms s,
      ignoresStderr_tcConfIfBadRc hrc ms s⟩
  rw [and_iff_left hrcs]
  constructor
  · rintro hall ⟨rfl, herr⟩
    have hconf := (hall tcConfIfBad (by simp)).1
    rw [tcConfIfBad_status hrc, if_pos ⟨rfl, herr⟩] at hconf
    cases hconf
  · intro hgood
    have hconf : (tcConfIfBad rc ms s).2 = documentedStatus rc s := by
      rw [tcConfIfBad_status hrc, documentedStatus, if_neg hgood]
    simp only [List.forall_mem_cons, List.not_mem_nil, false_imp_iff, implies_true, and_true]
    change ((_ = documentedStatus rc s) ∧ _) ∧ (_ = documentedStatus rc s ∧ _) ∧
      (_ = documentedStatus rc s ∧ _) ∧ (_ = documentedStatus rc s ∧ _)
    rw [tcPassOrFail_status hrc, tcFailIfBad_status_eq hrc, tcBreakIfBad_status hrc, hconf]
    simp only [hzero, and_self]

/-- A testcase has just left a warning in `$stderr`. -/
def warnedState : State :=
  (tcSetup ⟨4711, 1, true, fun _ => "", ["root"], ["root"], []⟩).setFiles "" "warning"

/-- With a return code of its own to pass on, no helper is affected by the warning. -/
theorem verdictHelpers_status_three :
    warnedState.stderrNonempty = true ∧
      (∀ f ∈ [tcPassOrFail, tcFailIfBad, tcBreakIfBad, tcConfIfBad],
        (f (3 : ℕ) ["bad"] warnedState).2 = 3) ∧
      ∀ f ∈ [tcFailIfBadRc, tcBreakIfBadRc, tcConfIfBadRc],
        IgnoresStderr (f (3 : ℕ) ["bad"]) 3 warnedState := by
  have hall := (verdictHelpers_status_iff (by decide : 3 < 256) ["bad"] warnedState).mpr
    (by decide)
  exact ⟨by decide, fun f hf => (hall.1 f hf).1, hall.2⟩

/-- With return code 0 the warning makes the others return 255, and `tc_conf_if_bad` 0. -/
theorem verdictHelpers_status_fails :
    warnedState.stderrNonempty = true ∧ (tcBreakIfBad (0 : ℕ) [] warnedState).2 = 255 ∧
      (tcConfIfBad (0 : ℕ) [] warnedState).2 = 0 ∧
      ¬∀ f ∈ [tcPassOrFail, tcFailIfBad, tcBreakIfBad, tcConfIfBad],
        (f (0 : ℕ) [] warnedState).2 =
          if (0 : ℕ) = 0 ∧ warnedState.stderrNonempty = true then 255 else 0 := by
  have hconf := tcConfIfBad_status (by decide : 0 < 256) [] warnedState
  refine ⟨by decide, tcBreakIfBad_status (by decide) [] _, hconf, fun hall => ?_⟩
  have hbad := hall tcConfIfBad (by simp)
  rw [hconf] at hbad
  revert hbad
  decide

/-! ## `tc_break_if_bad_rc` -/

/-- The same counters, the same lists of testcases and the same status. -/
structure SameVerdict (p q : State × ℕ) : Prop where
  final : p.1.results.final = q.1.results.final
  brok : p.1.results.brok = q.1.results.brok
  fails : p.1.results.fails = q.1.results.fails
  broks : p.1.results.broks = q.1.results.broks
  status : p.2 = q.2

theorem Prints.results (h : Prints s s') : s'.results = s.results := by
  obtain ⟨c, rfl, -⟩ := h
  rfl

/-- What a call does to the count of failures. -/
theorem tcBreakIfBadRc_final (rc : ℤ) (ms : List String) (s : State) :
    (tcBreakIfBadRc rc ms s).1.results.final = s.results.final + if rc = 0 then 0 else 1 := by
  by_cases hrc : rc = 0
  · subst hrc
    rw [tcBreakIfBadRc_pass]
    simp
  · rw [tcBreakIfBadRc_eq, (tcFailIfBadRc_fail hrc).results, if_neg hrc]
    rfl

theorem sameVerdict_tcBreakIfBadRc_iff (rc : ℤ) (ms : List String) (s : State) :
    SameVerdict (tcBreakIfBadRc rc ms s) (tcBreakIfBad rc ms (s.setFiles s.console.stdout "")) ↔
      rc = 0 := by
  constructor
  · intro hsame
    by_contra hrc
    have hfinal := hsame.final
    rw [tcBreakIfBadRc_final, if_neg hrc, (tcBreakIfBad_brok (.inl hrc)).results] at hfinal
    have hsetFiles : ((s.setFiles s.console.stdout "").recordBrok).results.final =
      s.results.final := rfl
    omega
  · rintro rfl
    have hempty : (s.setFiles s.console.stdout "").stderrNonempty = false := by
      simp [State.stderrNonempty, State.setFiles]
    rw [tcBreakIfBadRc_pass, tcBreakIfBad_pass rfl hempty]
    exact ⟨rfl, rfl, rfl, rfl, rfl⟩

/-- A call of `tc_break_if_bad_rc` and the files it finds. -/
structure BreakCall where
  stdout : String
  stderr : String
  rc : ℤ
  ms : List String

def BreakCall.toCall (c : BreakCall) : Call := ⟨c.stdout, c.stderr, .breakIfBadRc c.rc c.ms⟩

/-- Every bad return code counts as a failure. -/
theorem runCalls_breakIfBadRc_final (calls : List BreakCall) (s : State) :
    (runCalls (calls.map BreakCall.toCall) s).results.final =
      s.results.final + (calls.filter fun c => c.rc ≠ 0).length := by
  induction calls generalizing s with
  | nil => simp [runCalls]
  | cons c calls ih =>
      have hcall : (c.toCall.run s).results.final = s.results.final + if c.rc = 0 then 0 else 1 :=
        tcBreakIfBadRc_final c.rc c.ms (s.setFiles c.stdout c.stderr)
      have hsteps : runCalls ((c :: calls).map BreakCall.toCall) s =
          runCalls (calls.map BreakCall.toCall) (c.toCall.run s) := rfl
      rw [hsteps, ih, hcall, List.filter_cons]
      by_cases hrc : c.rc = 0
      · simp [hrc]
      · simp only [hrc, ne_eq, not_false_eq_true, decide_true, if_true, if_false,
          List.length_cons]
        push_cast
        omega

/-- `tc_break_if_bad_rc` is `tc_break_if_bad` without a look at `$stderr` for the return
code 0 only, and a run of such calls leaves the count of failures alone exactly if all
its return codes are 0. -/
theorem tcBreakIfBadRc_breaks_iff (rc : ℤ) (ms : List String) (s : State)
    (calls : List BreakCall) :
    (SameVerdict (tcBreakIfBadRc rc ms s)
        (tcBreakIfBad rc ms (s.setFiles s.console.stdout "")) ↔ rc = 0) ∧
      ((∀ k, (runCalls ((calls.take k).map BreakCall.toCall) s).results.final =
          s.results.final) ↔ ∀ c ∈ calls, c.rc = 0) := by
  refine ⟨sameVerdict_tcBreakIfBadRc_iff rc ms s, ?_⟩
  constructor
  · intro hall
    have hlast := hall calls.length
    rw [List.take_length, runCalls_breakIfBadRc_final] at hlast
    have hnone : (calls.filter fun c => c.rc ≠ 0) = [] := by
      apply List.eq_nil_of_length_eq_zero
      omega
    simpa using hnone
  · intro hall k
    have hnone : ((calls.take k).filter fun c => c.rc ≠ 0) = [] := by
      apply List.filter_eq_nil_iff.mpr
      intro c hc
      simpa using hall c (List.mem_of_mem_take hc)
    rw [runCalls_breakIfBadRc_final, hnone]
    simp

/-- One internal error on a fresh harness: a FAIL and no BROK. -/
theorem tcBreakIfBadRc_records_fail :
    (tcBreakIfBadRc 1 ["no tool"] warnedState).1.results.final = 1 ∧
      (tcBreakIfBadRc 1 ["no tool"] warnedState).1.results.brok = 0 ∧
      ¬SameVerdict (tcBreakIfBadRc 1 ["no tool"] warnedState)
        (tcBreakIfBad 1 ["no tool"] (warnedState.setFiles warnedState.console.stdout "")) := by
  have hresults : (tcFailIfBadRc 1 ["no tool"] warnedState).1.results =
      warnedState.recordFail.results := (tcFailIfBadRc_fail Int.one_ne_zero).results
  refine ⟨tcBreakIfBadRc_final 1 _ _, ?_, fun h => ?_⟩
  · rw [tcBreakIfBadRc_eq, hresults]
    rfl
  · cases (sameVerdict_tcBreakIfBadRc_iff 1 _ _).mp h

end AutotestClient.Harness
