import AutotestClient.Model.Harness.Lifecycle
import AutotestClient.Verification.Harness.Reporting
import Mathlib.Algebra.Ring.Int.Defs

/-! # The exit status of a testcase

The verdicts of a run are read off its calls. The counters of the harness agree with them
after every call, and the exit status is a function of the counters. -/

namespace AutotestClient.Harness

/-! ## Verdicts of a run -/

inductive Verdict where
  | fail | brok | warn
  deriving DecidableEq

/-- The bad verdict a helper records with this content of `$stderr`, if any. -/
def Helper.verdict (stderr : String) : Helper → Option Verdict
  | .register _ => none
  | .passOrFail rc _ | .failIfBad rc _ => if rc ≠ 0 ∨ stderr ≠ "" then some .fail else none
  | .breakIfBad rc _ => if rc ≠ 0 ∨ stderr ≠ "" then some .brok else none
  | .failIfBadRc rc _ | .breakIfBadRc rc _ => if rc ≠ 0 then some .fail else none
  | .fail _ _ => some .fail
  | .brok _ _ => some .brok
  | .pass => if stderr ≠ "" then some .fail else none
  | .warn _ => some .warn

def Call.verdict (c : Call) : Option Verdict := c.helper.verdict c.stderr

/-- The number of tests a call registers. -/
def Call.registered (c : Call) : ℤ :=
  match c.helper with
  | .register _ => 1
  | _ => 0

def verdicts (calls : List Call) : List Verdict := calls.filterMap Call.verdict

def registered (calls : List Call) : ℤ := (calls.map Call.registered).sum

def Results.record (r : Results) (name : String) : Option Verdict → Results
  | none => r
  | some .fail => { r with fails := r.fails ++ [name], final := r.final + 1 }
  | some .brok => { r with broks := r.broks ++ [name], brok := -1 }
  | some .warn => { r with warn := 99 }

/-! ## One call -/

variable {s : State} {vs : List Verdict}

theorem stderrNonempty_setFiles (hnull : s.console.stderrIsNull = false) {out err : String} :
    (s.setFiles out err).stderrNonempty = true ↔ err ≠ "" := by
  simp [State.stderrNonempty, State.setFiles, hnull]

/-- The state with a verdict recorded and nothing printed. -/
def State.withVerdict (s : State) (v : Option Verdict) : State :=
  { s with results := s.results.record s.tcname v }

theorem prints_withVerdict_none (out err : String) :
    Prints (s.withVerdict none) (s.setFiles out err) :=
  ⟨_, rfl, rfl⟩

theorem prints_withVerdict_fail (out err : String) :
    Prints (s.withVerdict (some .fail)) (s.setFiles out err).recordFail :=
  ⟨_, rfl, rfl⟩

theorem prints_withVerdict_brok (out err : String) :
    Prints (s.withVerdict (some .brok)) (s.setFiles out err).recordBrok :=
  ⟨_, rfl, rfl⟩

theorem prints_verdict {bad : Prop} [Decidable bad] {v : Verdict} {t : State}
    (hbad : bad → Prints (s.withVerdict (some v)) t)
    (hgood : ¬ bad → Prints (s.withVerdict none) t) :
    Prints (s.withVerdict (if bad then some v else none)) t := by
  split
  · exact hbad ‹_›
  · exact hgood ‹_›

/-- Every call but `tc_register` records its verdict and prints. -/
theorem call_prints (c : Call) (hnull : s.console.stderrIsNull = false)
    (hreg : ∀ name, c.helper ≠ .register name) : Prints (s.withVerdict c.verdict) (c.run s) := by
  obtain ⟨out, err, helper⟩ := c
  have herr : (s.setFiles out err).stderrNonempty = true ↔ err ≠ "" :=
    stderrNonempty_setFiles hnull
  have hclean {rc : ℤ} (hgood : ¬ (rc ≠ 0 ∨ err ≠ "")) :
      rc = 0 ∧ (s.setFiles out err).stderrNonempty = false := by
    rw [← herr] at hgood
    simpa using hgood
  cases helper with
  | register name => exact absurd rfl (hreg name)
  | passOrFail rc ms =>
      refine prints_verdict (fun hbad => ?_) fun hgood => ?_
      · exact (prints_withVerdict_fail out err).trans
          (tcPassOrFail_fail (hbad.imp_right herr.mpr))
      · obtain ⟨hrc, hempty⟩ := hclean hgood
        exact (prints_withVerdict_none out err).trans (tcPassOrFail_pass hrc hempty)
  | failIfBad rc ms =>
      refine prints_verdict (fun hbad => ?_) fun hgood => ?_
      · exact (prints_withVerdict_fail out err).trans (tcFailIfBad_fail (hbad.imp_right herr.mpr))
      · obtain ⟨hrc, hempty⟩ := hclean hgood
        simp only [Call.run, Helper.run, tcFailIfBad_pass hrc hempty]
        exact prints_withVerdict_none out err
  | breakIfBad rc ms =>
      refine prints_verdict (fun hbad => ?_) fun hgood => ?_
      · exact (prints_withVerdict_brok out err).trans
          (tcBreakIfBad_brok (hbad.imp_right herr.mpr))
      · obtain ⟨hrc, hempty⟩ := hclean hgood
        simp only [Call.run, Helper.run, tcBreakIfBad_pass hrc hempty]
        exact prints_withVerdict_none out err
  | failIfBadRc rc ms | breakIfBadRc rc ms =>
      refine prints_verdict (fun hbad => ?_) fun hgood => ?_
      · exact (prints_withVerdict_fail out err).trans (tcFailIfBadRc_fail hbad)
      · obtain rfl := not_not.mp hgood
        simp only [Call.run, Helper.run, tcBreakIfBadRc_eq, tcFailIfBadRc_pass]
        exact prints_withVerdict_none out err
  | fail prev ms =>
      refine (prints_withVerdict_fail out err).trans (tcPassOrFail_fail (.inl ?_))
      split <;> simp_all
  | brok prev ms =>
      refine (prints_withVerdict_brok out err).trans (tcBreakIfBad_brok (.inl ?_))
      split <;> simp_all
  | pass =>
      refine prints_verdict (fun hbad => ?_) fun hgood => ?_
      · exact (prints_withVerdict_fail out err).trans (tcPassOrFail_fail (.inr (herr.mpr hbad)))
      · rw [← herr, Bool.not_eq_true] at hgood
        exact (prints_withVerdict_none out err).trans (tcPassOrFail_pass rfl hgood)
  | warn ms =>
      obtain ⟨c, hs, hc⟩ := prints_foldl (fun s m => .warn s.tstCount (escapePercent m)) ms
        (s.setFiles out err)
      refine ⟨c, ?_, hc⟩
      simp only [Call.run, Helper.run, tcWarn, hs]
      rfl

/-- A call changes the name and number of the test, the console and the results. -/
theorem call_run (c : Call) (hnull : s.console.stderrIsNull = false) :
    ∃ console name, c.run s = { s with
        console := console, tcname := name, tstCount := s.tstCount + c.registered
        results := s.results.record s.tcname c.verdict } ∧
      console.stderrIsNull = false := by
  by_cases hreg : ∃ name, c.helper = .register name
  · obtain ⟨out, err, helper⟩ := c
    obtain ⟨name, rfl⟩ := hreg
    exact ⟨_, _, rfl, hnull⟩
  · simp only [not_exists] at hreg
    obtain ⟨console, hs, hc⟩ := call_prints c hnull hreg
    refine ⟨console, s.tcname, ?_, hc.trans hnull⟩
    have hzero : c.registered = 0 := by
      unfold Call.registered
      split <;> simp_all
    rw [hs, hzero]
    simp [State.withVerdict]

/-! ## The counters -/

/-- The counters agree with the verdicts recorded so far. -/
structure Tally (vs : List Verdict) (r : Results) : Prop where
  final : r.final = vs.count .fail
  brok : r.brok = if .brok ∈ vs then -1 else 0
  warn : r.warn = if .warn ∈ vs then 99 else 0

theorem Tally.record {r : Results} (ht : Tally vs r) (name : String) (v : Option Verdict) :
    Tally (vs ++ v.toList) (r.record name v) := by
  obtain ⟨hfinal, hbrok, hwarn⟩ := ht
  cases v with
  | none => exact ⟨by simpa [Results.record] using hfinal, by simpa [Results.record] using hbrok,
      by simpa [Results.record] using hwarn⟩
  | some v =>
      cases v with
      | fail => exact ⟨by simp [Results.record, hfinal], by simpa [Results.record] using hbrok,
          by simpa [Results.record] using hwarn⟩
      | brok => exact ⟨by simp [Results.record, hfinal], by simp [Results.record],
          by simpa [Results.record] using hwarn⟩
      | warn => exact ⟨by simp [Results.record, hfinal], by simpa [Results.record] using hbrok,
          by simp [Results.record]⟩

/-- What a sequence of calls leaves as it is. -/
theorem runCalls_frame (calls : List Call) (hnull : s.console.stderrIsNull = false) :
    ∃ console name results, runCalls calls s = { s with
        console := console, tcname := name, tstCount := s.tstCount + registered calls
        results := results } ∧
      console.stderrIsNull = false := by
  induction calls generalizing s with
  | nil =>
      refine ⟨s.console, s.tcname, s.results, ?_, hnull⟩
      simp [runCalls, registered]
  | cons c calls ih =>
      obtain ⟨console, name, hrun, hconsole⟩ := call_run c hnull
      obtain ⟨console', name', results, hrest, hconsole'⟩ :=
        ih (s := c.run s) (by rw [hrun]; exact hconsole)
      refine ⟨console', name', results, ?_, hconsole'⟩
      have hsteps : runCalls (c :: calls) s = runCalls calls (c.run s) := rfl
      rw [hsteps, hrest, hrun]
      simp [registered, Int.add_assoc]

/-- What a sequence of calls adds to the counters. -/
theorem runCalls_tally (calls : List Call) (hnull : s.console.stderrIsNull = false)
    (ht : Tally vs s.results) :
    Tally (vs ++ verdicts calls) (runCalls calls s).results ∧
      (runCalls calls s).results.watchdog = s.results.watchdog := by
  induction calls generalizing s vs with
  | nil => exact ⟨by simpa [verdicts, runCalls] using ht, rfl⟩
  | cons c calls ih =>
      obtain ⟨console, name, hrun, hconsole⟩ := call_run c hnull
      have hwatch : (s.results.record s.tcname c.verdict).watchdog = s.results.watchdog := by
        rcases c.verdict with - | - | - | - <;> rfl
      have hcall : Tally (vs ++ c.verdict.toList) (c.run s).results := by
        rw [hrun]
        exact ht.record _ _
      obtain ⟨htally, hrest⟩ := ih (s := c.run s) (by rw [hrun]; exact hconsole) hcall
      have hsplit : verdicts (c :: calls) = c.verdict.toList ++ verdicts calls := by
        cases hv : c.verdict <;> simp [verdicts, hv]
      rw [hsplit, ← List.append_assoc]
      refine ⟨htally, hrest.trans ?_⟩
      rw [hrun]
      exact hwatch

/-- With the watchdog alive the last `exit` has status 0 exactly if nothing bad was
recorded or the number of FAILs is a positive multiple of 256. -/
theorem exitCode_verdict {r : Results} (ht : Tally vs r) (hw : r.watchdog = 0) :
    exitCode r.verdict = 0 ↔ vs = [] ∨ vs.count .fail ≠ 0 ∧ 256 ∣ vs.count .fail := by
  obtain ⟨hfinal, hbrok, hwarn⟩ := ht
  have hnil : vs = [] ↔ vs.count .fail = 0 ∧ .brok ∉ vs ∧ .warn ∉ vs := by
    constructor
    · rintro rfl
      simp
    · rintro ⟨hf, hb, hwn⟩
      refine List.eq_nil_iff_forall_not_mem.mpr fun v hv => ?_
      cases v with
      | fail => exact absurd hv (List.count_eq_zero.mp hf)
      | brok => exact hb hv
      | warn => exact hwn hv
  by_cases hf : vs.count .fail = 0
  · have hzero : r.final = 0 := by omega
    rw [hnil]
    simp only [Results.verdict, hw, hzero, hbrok, hwarn, ne_eq, not_true_eq_false, if_false, hf]
    split_ifs <;> simp_all [exitCode]
  · have hpos : r.final ≠ 0 := by omega
    simp only [Results.verdict, hw, hpos, ne_eq, not_true_eq_false, not_false_eq_true, if_true,
      if_false]
    rw [hnil]
    simp only [hf, false_and, not_false_eq_true, true_and, false_or, exitCode, hfinal]
    omega

/-! ## The cleanup -/

/-- The networking files get their saved contents back. -/
theorem restoreNet_eq (hsave : s.tcSave = true) : restoreNet s = { s with net := s.saved } := by
  rw [restoreNet, if_pos hsave]
  simp only [tcSaveNet, List.foldl_cons, List.foldl_nil]
  congr 1
  funext f
  cases f <;> simp [Function.update]

theorem killSleeper_eq (s : State) (w : Word) :
    killSleeper s w = { s with alive := s.alive.filter fun p => .pid p ≠ w } := by
  cases w with
  | text w =>
      have hall : (s.alive.filter fun p => Word.pid p ≠ .text w) = s.alive :=
        List.filter_eq_self.mpr (by simp)
      rw [hall, killSleeper]
  | pid p =>
      simp only [killSleeper, ne_eq, Word.pid.injEq]
      split
      · rfl
      · rw [List.filter_eq_self.mpr]
        intro q hq
        have hne : q ≠ p := fun heq => ‹p ∉ s.alive› (heq ▸ hq)
        simpa using hne

/-- No process listed in `TC_SLEEPER_PIDS` survives, and all others do. -/
theorem killSleepers_eq (s : State) :
    killSleepers s = { s with alive := s.alive.filter fun p => .pid p ∉ s.sleeperPids } := by
  have hloop (words : List Word) (t : State) : words.foldl killSleeper t =
      { t with alive := t.alive.filter fun p => .pid p ∉ words } := by
    induction words generalizing t with
    | nil =>
        have hall : (t.alive.filter fun p => Word.pid p ∉ []) = t.alive :=
          List.filter_eq_self.mpr (by simp)
        rw [hall, List.foldl_nil]
    | cons w words ih =>
        rw [List.foldl_cons, ih, killSleeper_eq]
        simp [List.filter_filter, Bool.and_comm]
  exact hloop s.sleeperPids s

theorem prints_checkWatchdog_dead (s : State) :
    Prints ({ s with results := { s.results with watchdog := 88 } } : State).recordFail
      (checkWatchdog false s) :=
  tcFailIfBad_fail (.inl (by decide))

theorem reports_checkWatchdog (alive : Bool) (s : State) : Reports s (checkWatchdog alive s) := by
  cases alive with
  | true => exact Reports.refl s
  | false => exact Reports.trans ⟨s.console, _, rfl, rfl⟩ (prints_checkWatchdog_dead s).reports

/-- A watchdog that is gone is a FAIL of its own. -/
theorem checkWatchdog_tally (alive : Bool) (ht : Tally vs s.results) :
    Tally (vs ++ if alive then [] else [.fail]) (checkWatchdog alive s).results ∧
      (checkWatchdog alive s).results.watchdog = if alive then s.results.watchdog else 88 := by
  cases alive with
  | true => exact ⟨by simpa [checkWatchdog] using ht, rfl⟩
  | false =>
      obtain ⟨console, hs, -⟩ := prints_checkWatchdog_dead s
      have htally : Tally vs { s.results with watchdog := 88 } := ⟨ht.final, ht.brok, ht.warn⟩
      rw [hs]
      exact ⟨htally.record s.tcname (some .fail), rfl⟩

theorem beginCleanup_frame (e : Cleanup) (hnull : s.console.stderrIsNull = false) :
    ∃ console name results, beginCleanup e s = { s with
        console := console, tcname := name, tstCount := s.tstCount + registered e.localCleanup
        results := results } ∧
      console.stderrIsNull = false := by
  obtain ⟨c, r, hs, hc⟩ := reports_checkWatchdog e.watchdogAlive s
  obtain ⟨console, name, results, hrun, hconsole⟩ := runCalls_frame e.localCleanup
    (s := State.clearFiles { checkWatchdog e.watchdogAlive s with tcname := "tc_local_cleanup" })
    (by rw [hs]; exact hc.trans hnull)
  refine ⟨console, name, results, hrun.trans ?_, hconsole⟩
  rw [hs]
  rfl

theorem beginCleanup_tally (e : Cleanup) (hnull : s.console.stderrIsNull = false)
    (ht : Tally vs s.results) :
    Tally (vs ++ (if e.watchdogAlive then [] else [.fail]) ++ verdicts e.localCleanup)
        (beginCleanup e s).results ∧
      (beginCleanup e s).results.watchdog = if e.watchdogAlive then s.results.watchdog else 88 := by
  obtain ⟨c, r, hs, hc⟩ := reports_checkWatchdog e.watchdogAlive s
  obtain ⟨htally, hwatch⟩ := checkWatchdog_tally e.watchdogAlive ht
  obtain ⟨hcalls, hsame⟩ := runCalls_tally e.localCleanup
    (s := State.clearFiles { checkWatchdog e.watchdogAlive s with tcname := "tc_local_cleanup" })
    (by rw [hs]; exact hc.trans hnull) htally
  exact ⟨hcalls, hsame.trans hwatch⟩

theorem tcDelUserOrBreak_nil (tool : Tool) (answers : ℕ → Answer) (name : String)
    (hu : s.users.listed = []) : tcDelUserOrBreak tool answers name s = s := by
  rw [tcDelUserOrBreak, hu, delUsers, ← hu]

theorem tcDelGroupOrBreak_nil (tool : Tool) (answers : ℕ → Answer) (name : String)
    (hg : s.groups.listed = []) :
    Prints (if tool = .missing then s.recordFail else s)
      (tcDelGroupOrBreak tool answers name s).1 := by
  by_cases hm : tool = .missing
  · subst hm
    exact tcDelGroupOrBreak_missing answers name s
  · rw [if_neg hm, tcDelGroupOrBreak_eq hm, hg, delGroups, storeGroups, ← hg]
    exact Prints.refl s

/-- Without accounts to delete, the rest of the cleanup records a FAIL only if there is no
command that deletes groups. -/
theorem releaseResources_status (e : Cleanup) (hsave : s.tcSave = true)
    (hu : s.users.listed = []) (hg : s.groups.listed = []) (hcap : s.capLogPid = none)
    (ht : Tally vs s.results) :
    ∃ results, (releaseResources e s).2 = exitCode results.verdict ∧
      Tally (vs ++ if e.groupTool = .missing then [.fail] else []) results ∧
      results.watchdog = s.results.watchdog := by
  let t : State :=
    { s with net := s.saved, alive := s.alive.filter fun p => .pid p ∉ s.sleeperPids }
  have hkill : killSleepers (restoreNet s) = t := by rw [restoreNet_eq hsave, killSleepers_eq]
  have hcapLog : tcCapLogStop e.capLogStopped t = (t, none) := by
    simp only [tcCapLogStop, t, hcap]
  obtain ⟨c, hs, -⟩ := tcDelGroupOrBreak_nil (s := t) e.groupTool e.groupdel "" hg
  obtain ⟨c', hinfo, -⟩ := prints_tcInfo ["Finish"]
    (removeDirectories (tcDelGroupOrBreak e.groupTool e.groupdel "" t).1)
  refine ⟨(tcDelGroupOrBreak e.groupTool e.groupdel "" t).1.results, ?_, ?_, ?_⟩
  · simp only [releaseResources, hkill, hcapLog, tcDelUserOrBreak_nil _ _ _ (s := t) hu, hinfo]
    rfl
  · rw [hs]
    split
    · exact ht.record s.tcname (some .fail)
    · simpa using ht
  · rw [hs]
    split <;> rfl

/-! ## The whole run -/

/-- A testcase: what it starts from, its calls, and what its cleanup meets. -/
structure TestRun where
  host : Host
  calls : List Call
  cleanup : Cleanup

/-- The exit status of the testcase, which the Python wrappers look at. -/
def TestRun.status (r : TestRun) : ℕ :=
  (tcInternalCleanup r.cleanup (runCalls r.calls (tcSetup r.host))).2

/-- The number of tests registered in the whole run. -/
def TestRun.registered (r : TestRun) : ℤ :=
  Harness.registered r.calls + Harness.registered r.cleanup.localCleanup

/-- All tests were registered, so that the cleanup goes through. -/
def TestRun.Complete (r : TestRun) : Prop := r.host.tstTotal ≤ r.registered

instance (r : TestRun) : Decidable r.Complete := inferInstanceAs (Decidable (_ ≤ _))

/-- The bad verdicts of the whole run, in the order in which they are recorded. -/
def TestRun.recorded (r : TestRun) : List Verdict :=
  verdicts r.calls ++ (if r.cleanup.watchdogAlive then [] else [.fail]) ++
    verdicts r.cleanup.localCleanup ++
    if r.Complete ∧ r.cleanup.groupTool = .missing then [.fail] else []

theorem tally_tcSetup (h : Host) : Tally [] (tcSetup h).results := ⟨rfl, rfl, rfl⟩

/-- What the test for cases that did not run finds in a run without accounts. -/
structure AtTest (r : TestRun) (s : State) : Prop where
  count : s.tstCount = r.registered
  total : s.tstTotal = r.host.tstTotal
  tcSave : s.tcSave = true
  users : s.users.listed = []
  groups : s.groups.listed = []
  capLog : s.capLogPid = none
  tally : Tally (verdicts r.calls ++ (if r.cleanup.watchdogAlive then [] else [.fail]) ++
    verdicts r.cleanup.localCleanup) s.results
  watchdog : s.results.watchdog = if r.cleanup.watchdogAlive then 0 else 88

theorem atTest_beginCleanup (r : TestRun) :
    AtTest r (beginCleanup r.cleanup (runCalls r.calls (tcSetup r.host))) := by
  obtain ⟨c1, n1, r1, hcalls, hnull⟩ := runCalls_frame r.calls (s := tcSetup r.host) rfl
  obtain ⟨ht1, hw1⟩ := runCalls_tally r.calls (s := tcSetup r.host) rfl (tally_tcSetup r.host)
  have hnull' : (runCalls r.calls (tcSetup r.host)).console.stderrIsNull = false := by
    rw [hcalls]
    exact hnull
  obtain ⟨c2, n2, r2, hbegin, -⟩ := beginCleanup_frame r.cleanup hnull'
  obtain ⟨ht2, hw2⟩ := beginCleanup_tally r.cleanup hnull' ht1
  rw [hw1] at hw2
  rw [hbegin] at ht2 hw2 ⊢
  rw [hcalls]
  refine ⟨?_, rfl, rfl, rfl, rfl, rfl, ht2, hw2⟩
  simp [tcSetup, TestRun.registered]

/-- Status 0 is a complete run with a live watchdog that recorded nothing bad, or whose
FAILs are a positive multiple of 256. -/
theorem status_eq_zero_iff (r : TestRun) :
    r.status = 0 ↔ r.Complete ∧ r.cleanup.watchdogAlive = true ∧
      (r.recorded = [] ∨ r.recorded.count .fail ≠ 0 ∧ 256 ∣ r.recorded.count .fail) := by
  have h := atTest_beginCleanup r
  rw [TestRun.status, tcInternalCleanup]
  generalize beginCleanup r.cleanup (runCalls r.calls (tcSetup r.host)) = s at h
  by_cases hcomplete : r.Complete
  · have hle : ¬s.tstCount < s.tstTotal := by
      rw [h.count, h.total]
      exact Int.not_lt.mpr hcomplete
    obtain ⟨final, hexit, htally, hwatch⟩ :=
      releaseResources_status r.cleanup h.tcSave h.users h.groups h.capLog h.tally
    have hrecorded : r.recorded = verdicts r.calls ++
        (if r.cleanup.watchdogAlive then [] else [.fail]) ++ verdicts r.cleanup.localCleanup ++
        if r.cleanup.groupTool = .missing then [.fail] else [] := by
      simp [TestRun.recorded, hcomplete]
    rw [h.watchdog] at hwatch
    rw [if_neg hle, hexit, hrecorded]
    cases hwd : r.cleanup.watchdogAlive with
    | true =>
        rw [hwd, if_pos rfl] at hwatch
        simp only [hwd] at htally
        simpa [hcomplete] using exitCode_verdict htally hwatch
    | false =>
        rw [hwd] at hwatch
        have h88 : final.verdict = 88 := by simp [Results.verdict, hwatch]
        simp [h88, exitCode]
  · have hlt : s.tstCount < s.tstTotal := by
      rw [h.count, h.total]
      exact Int.not_le.mp hcomplete
    rw [if_pos hlt]
    simp [hcomplete]

/-- The exit status is 0 exactly for the good runs, except for runs that are good but for
a positive multiple of 256 FAILs (and possibly BROKs and WARNs), which end with 0 too. -/
theorem exitStatus_verdict_iff (r : TestRun) :
    (r.status = 0 ↔
        r.host.tstTotal ≤ r.registered ∧ r.cleanup.watchdogAlive = true ∧ r.recorded = []) ↔
      ¬ (r.host.tstTotal ≤ r.registered ∧ r.cleanup.watchdogAlive = true ∧
        0 < r.recorded.count .fail ∧ 256 ∣ r.recorded.count .fail) := by
  have hnil (h : r.recorded = []) : r.recorded.count .fail = 0 := by simp [h]
  rw [status_eq_zero_iff, TestRun.Complete]
  constructor
  · rintro hiff ⟨hle, halive, hpos, hdvd⟩
    have hgood := hiff.mp ⟨hle, halive, .inr ⟨by omega, hdvd⟩⟩
    have := hnil hgood.2.2
    omega
  · intro hexcept
    constructor
    · rintro ⟨hle, halive, hrec | ⟨hne, hdvd⟩⟩
      · exact ⟨hle, halive, hrec⟩
      · exact absurd ⟨hle, halive, by omega, hdvd⟩ hexcept
    · rintro ⟨hle, halive, hrec⟩
      exact ⟨hle, halive, .inl hrec⟩

/-- A cleanup whose commands all succeed. -/
def goodCleanup : Cleanup :=
  ⟨true, [], .success, .first, fun _ => .success, .first, fun _ => .success⟩

/-- One test registered of one, and 256 times `tc_fail`. -/
def failing256 : TestRun where
  host := ⟨4711, 1, true, fun _ => "", ["root"], ["root"], []⟩
  calls := ⟨"", "", .register "test"⟩ :: List.replicate 256 ⟨"", "", .fail 1 ["bad"]⟩
  cleanup := goodCleanup

theorem exitStatus_256_failures :
    failing256.status = 0 ∧ failing256.recorded = List.replicate 256 .fail ∧
      ¬ (failing256.status = 0 ↔ failing256.host.tstTotal ≤ failing256.registered ∧
        failing256.cleanup.watchdogAlive = true ∧ failing256.recorded = []) := by
  have hrecorded : failing256.recorded = List.replicate 256 .fail := by decide +kernel
  have hstatus : failing256.status = 0 := by
    refine (status_eq_zero_iff failing256).mpr ⟨by decide +kernel, rfl, .inr ?_⟩
    rw [hrecorded, List.count_replicate_self]
    decide
  refine ⟨hstatus, hrecorded, fun hiff => ?_⟩
  have hgood := (hiff.mp hstatus).2.2
  rw [hrecorded] at hgood
  cases hgood

end AutotestClient.Harness
