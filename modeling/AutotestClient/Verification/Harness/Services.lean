import AutotestClient.Model.Harness.Services
import AutotestClient.Verification.Harness.Contracts
import AutotestClient.Verification.Harness.Waiters

/-! # Services and mail

A call either polls with its counter, or exits with a verdict before it has looked at anything. -/

namespace AutotestClient.Harness.Services

open Shared Waiters

variable {h : Host} {service : String} {max : Option ℤ} {s t : State}

/-! ## The steps before the loop -/

/-- A FAIL or a BROK was recorded. -/
def Recorded (s t : State) : Prop :=
  t.results.final = s.results.final + 1 ∧ t.results.brok = s.results.brok ∨
    t.results.final = s.results.final ∧ t.results.brok = -1

theorem results_of_prints (hp : Prints s t) : t.results = s.results := by
  obtain ⟨c, rfl, -⟩ := hp
  rfl

theorem Recorded.of_prints {s' : State} (hp : Prints s s') (hr : Recorded s' t) :
    Recorded s t := by
  rwa [Recorded, results_of_prints hp] at hr

/-- A test of the arguments lets a call go on as it is, or ends it. -/
theorem orExit_cases (ok : Bool) (m : String) (s : State) :
    (ok = true ∧ orExit ok m s = .ok s) ∨
      (ok = false ∧ ∃ t, orExit ok m s = .error t ∧ Recorded s t) := by
  cases ok with
  | true => exact .inl ⟨rfl, orExit_pass rfl m s⟩
  | false =>
      have hfail : Prints s.recordFail (tcBreakIfBadRc 1 [m] s).1 :=
        tcFailIfBadRc_fail Int.one_ne_zero
      refine .inr ⟨rfl, (tcBreakIfBadRc 1 [m] s).1, ?_, .inl ?_⟩
      · simp [orExit, tcBreakIfBadRc_status_one]
      · rw [results_of_prints hfail]
        exact ⟨rfl, rfl⟩

theorem checkService_cases (funcname service : String) (s : State) :
    (service ≠ "" ∧ checkService funcname service s = .ok s) ∨
      (service = "" ∧ ∃ t, checkService funcname service s = .error t ∧ Recorded s t) := by
  rcases orExit_cases (decide (service ≠ ""))
    (funcname ++ ": Internal script error: called w/o service.") s with ⟨hok, hrun⟩ | ⟨hok, hrun⟩
  · exact .inl ⟨by simpa using hok, hrun⟩
  · exact .inr ⟨by simpa using hok, hrun⟩

/-- How many looks a call takes at most. -/
def limit (max : Option ℤ) : ℕ := (max.getD 10).toNat

/-- The time is positive, if it is given. -/
def Positive (max : Option ℤ) : Prop := ∀ n ∈ max, 0 < n

theorem checkMax_cases (funcname : String) (max : Option ℤ) (s : State) :
    (Positive max ∧ checkMax funcname max s = .ok (limit max, s)) ∨
      (¬ Positive max ∧ ∃ t, checkMax funcname max s = .error t ∧ Recorded s t) := by
  cases max with
  | none => exact .inl ⟨by simp [Positive], rfl⟩
  | some n =>
      rw [checkMax]
      rcases orExit_cases (decide (0 < n)) (funcname ++ ": Internal script error: " ++ toString n ++
        " is not a positive integer.") s with ⟨hok, hrun⟩ | ⟨hok, t, hrun, hr⟩
      · exact .inl ⟨by simpa [Positive] using hok, by rw [hrun]; rfl⟩
      · exact .inr ⟨by simpa [Positive] using hok, t, by rw [hrun]; rfl, hr⟩

/-- The command succeeds and writes nothing to `$stderr`. -/
def Silent (h : Host) (s : State) : Prop :=
  h.command.rc = 0 ∧ (s.console.stderrIsNull = true ∨ h.command.stderr = "")

theorem stderrNonempty_setFiles (s : State) (stdout stderr : String) :
    (s.setFiles stdout stderr).stderrNonempty = false ↔
      s.console.stderrIsNull = true ∨ stderr = "" := by
  cases hnull : s.console.stderrIsNull <;> simp [State.stderrNonempty, State.setFiles, hnull]

theorem orBreak_cases (h : Host) (m : String) (s : State) :
    let files := s.setFiles h.command.stdout h.command.stderr
    (Silent h s ∧ orBreak h.command.rc m files = .ok files) ∨
      (¬ Silent h s ∧ ∃ t, orBreak h.command.rc m files = .error t ∧ Recorded s t) := by
  intro files
  have hstderr := stderrNonempty_setFiles s h.command.stdout h.command.stderr
  have hstatus := tcBreakIfBad_status h.command.rc_lt [m] files
  by_cases hsilent : Silent h s
  · have hrc : (h.command.rc : ℤ) = 0 := by simp [hsilent.1]
    left
    refine ⟨hsilent, ?_⟩
    rw [orBreak, tcBreakIfBad_pass hrc (hstderr.mpr hsilent.2)]
    rfl
  · have hbad : (h.command.rc : ℤ) ≠ 0 ∨ files.stderrNonempty = true := by
      by_contra hgood
      simp only [not_or, not_not, Bool.not_eq_true] at hgood
      exact hsilent ⟨by simpa using hgood.1, hstderr.mp hgood.2⟩
    have hne : (tcBreakIfBad h.command.rc [m] files).2 ≠ 0 := by
      rw [hstatus, documentedStatus]
      split_ifs with hquiet
      · simp
      · rintro hrc
        rcases hbad with hbad | hbad
        · exact hbad (by simp [hrc])
        · exact hquiet ⟨hrc, hbad⟩
    refine .inr ⟨hsilent, (tcBreakIfBad h.command.rc [m] files).1, ?_, .inr ?_⟩
    · simp [orBreak, hne]
    · rw [results_of_prints (tcBreakIfBad_brok hbad)]
      exact ⟨rfl, rfl⟩

/-! ## Calls -/

/-- The functions that wait for a service. -/
inductive Call where
  | waitUp
  | waitDown
  | start
  | restart
  | stop
  deriving DecidableEq

namespace Call

def run (h : Host) (service : String) (max : Option ℤ) (s : State) : Call → Except State Waited
  | waitUp => tcWaitForService h service max s
  | waitDown => tcWaitForNoService h service max s
  | start => tcServiceStartAndWait h service max s
  | restart => tcServiceRestartAndWait h service max s
  | stop => tcServiceStopAndWait h service max s

/-- The call runs a command of its own. -/
def commands : Call → Bool
  | start | restart | stop => true
  | _ => false

def waitsForUp : Call → Bool
  | waitUp | start | restart => true
  | _ => false

/-- What the loop of the call waits for. -/
def looked (h : Host) (w : Call) (i : ℕ) : Bool :=
  if w.waitsForUp then h.isUp i else !h.stillUp i

/-- What the call is to wait for. -/
def awaited (isUp : ℕ → Bool) (w : Call) (i : ℕ) : Bool :=
  if w.waitsForUp then isUp i else !isUp i

/-- The call gets to its loop. -/
def Accepted (h : Host) (service : String) (max : Option ℤ) (s : State) (w : Call) : Prop :=
  service ≠ "" ∧ Positive max ∧ (w.commands = true → Silent h s)

end Call

theorem awaitService_polls (test : ℕ → Bool) (say : String) (n : ℕ) (s : State) :
    Polls (fun i => !test i) n (awaitService test say n s).seen
      ((awaitService test say n s).status = 0) :=
  (follows_sayFirst (fun i _ => (Bool.not_not (test i)).symm) n 0 s).polls

/-- A call polls, or ends with a verdict. -/
def Ends (cond : ℕ → Bool) (n : ℕ) (accepted : Prop) (s : State) (r : Except State Waited) :
    Prop :=
  (accepted ∧ ∃ w, r = .ok w ∧ Polls cond n w.seen (w.status = 0)) ∨
    (¬ accepted ∧ ∃ t, r = .error t ∧ Recorded s t)

theorem ends_waitUp (h : Host) (service : String) (max : Option ℤ) (s : State) :
    Ends h.isUp (limit max) (service ≠ "" ∧ Positive max) s (tcWaitForService h service max s) := by
  rw [tcWaitForService]
  rcases checkService_cases "tc_wait_for_service" service s with
    ⟨hservice, hrun⟩ | ⟨hno, t, hrun, hr⟩
  · rw [hrun]
    rcases checkMax_cases "tc_wait_for_service" max s with ⟨hmax, hrun⟩ | ⟨hno, t, hrun, hr⟩
    · have hpolls := awaitService_polls (fun i => !h.isUp i)
        ("waiting for service " ++ service ++ " to be up") (limit max)
        (tcInfo ["checking if service " ++ service ++ " is up"] s)
      simp only [Bool.not_not] at hpolls
      refine .inl ⟨⟨hservice, hmax⟩, _, ?_, hpolls⟩
      simp only [bind, Except.bind, hrun]
      rfl
    · refine .inr ⟨fun hok => hno hok.2, t, ?_, hr⟩
      simp only [bind, Except.bind, hrun]
  · refine .inr ⟨fun hok => hok.1 hno, t, ?_, hr⟩
    simp only [bind, Except.bind, hrun]

theorem ends_waitDown (h : Host) (service : String) (max : Option ℤ) (s : State) :
    Ends (fun i => !h.stillUp i) (limit max) (service ≠ "" ∧ Positive max) s
      (tcWaitForNoService h service max s) := by
  rw [tcWaitForNoService]
  rcases checkService_cases "tc_wait_for_no_service" service s with
    ⟨hservice, hrun⟩ | ⟨hno, t, hrun, hr⟩
  · rw [hrun]
    rcases checkMax_cases "tc_wait_for_no_service" max s with ⟨hmax, hrun⟩ | ⟨hno, t, hrun, hr⟩
    · refine .inl ⟨⟨hservice, hmax⟩, _, ?_, awaitService_polls h.stillUp
        ("waiting for service " ++ service ++ " to be down") (limit max)
        (tcInfo ["checking if service " ++ service ++ " is down"] s)⟩
      simp only [bind, Except.bind, hrun]
      rfl
    · refine .inr ⟨fun hok => hno hok.2, t, ?_, hr⟩
      simp only [bind, Except.bind, hrun]
  · refine .inr ⟨fun hok => hok.1 hno, t, ?_, hr⟩
    simp only [bind, Except.bind, hrun]

theorem silent_of_prints (hp : Prints s t) : Silent h t ↔ Silent h s := by
  obtain ⟨c, rfl, hc⟩ := hp
  simp only [Silent, hc]

theorem ends_startAndWait (funcname doing : String) (h : Host) (service : String)
    (max : Option ℤ) (s : State) :
    Ends h.isUp (limit max) (service ≠ "" ∧ Positive max ∧ Silent h s) s
      (startAndWait funcname doing h service max s) := by
  rw [startAndWait]
  rcases checkService_cases funcname service s with ⟨hservice, hrun⟩ | ⟨hno, t, hrun, hr⟩
  · have hinfo := prints_tcInfo [doing ++ " the service " ++ service] s
    rcases orBreak_cases h (funcname ++ ": " ++ service ++ " failed to start")
      (tcInfo [doing ++ " the service " ++ service] s) with ⟨hsilent, hbreak⟩ | ⟨hno, t, hbreak, hr⟩
    · rw [silent_of_prints hinfo] at hsilent
      have hfiles := hinfo.trans (prints_setFiles _ h.command.stdout h.command.stderr)
      simp only [bind, Except.bind, hrun, hbreak]
      rcases ends_waitUp h service max ((tcInfo [doing ++ " the service " ++ service] s).setFiles
        h.command.stdout h.command.stderr) with ⟨hok, hpolls⟩ | ⟨hno, t, hend, hr⟩
      · exact .inl ⟨⟨hok.1, hok.2, hsilent⟩, hpolls⟩
      · exact .inr ⟨fun hok => hno ⟨hok.1, hok.2.1⟩, t, hend, hr.of_prints hfiles⟩
    · rw [silent_of_prints hinfo] at hno
      refine .inr ⟨fun hok => hno hok.2.2, t, ?_, hr.of_prints hinfo⟩
      simp only [bind, Except.bind, hrun, hbreak]
  · refine .inr ⟨fun hok => hok.1 hno, t, ?_, hr⟩
    simp only [bind, Except.bind, hrun]

theorem ends_stop (h : Host) (service : String) (max : Option ℤ) (s : State) :
    Ends (fun i => !h.stillUp i) (limit max) (service ≠ "" ∧ Positive max ∧ Silent h s) s
      (tcServiceStopAndWait h service max s) := by
  rw [tcServiceStopAndWait]
  rcases checkMax_cases "tc_service_stop_and_wait" max s with ⟨hmax, hrun⟩ | ⟨hno, t, hrun, hr⟩
  · rcases checkService_cases "tc_service_stop_and_wait" service s with
      ⟨hservice, hcheck⟩ | ⟨hno, t, hcheck, hr⟩
    · have hinfo := prints_tcInfo ["stopping the service " ++ service] s
      rcases orBreak_cases h ("tc_service_stop_and_wait: " ++ service ++ " failed to stop")
        (tcInfo ["stopping the service " ++ service] s) with
        ⟨hsilent, hbreak⟩ | ⟨hno, t, hbreak, hr⟩
      · rw [silent_of_prints hinfo] at hsilent
        refine .inl ⟨⟨hservice, hmax, hsilent⟩, _, ?_, awaitService_polls h.stillUp
          ("waiting for service " ++ service ++ " to be stopped") (limit max)
          (tcInfo ["checking if service " ++ service ++ " is stopped"]
            ((tcInfo ["stopping the service " ++ service] s).setFiles h.command.stdout
              h.command.stderr))⟩
        simp only [bind, Except.bind, hrun, hcheck, hbreak]
        rfl
      · rw [silent_of_prints hinfo] at hno
        refine .inr ⟨fun hok => hno hok.2.2, t, ?_, hr.of_prints hinfo⟩
        simp only [bind, Except.bind, hrun, hcheck, hbreak]
    · refine .inr ⟨fun hok => hok.1 hno, t, ?_, hr⟩
      simp only [bind, Except.bind, hrun, hcheck]
  · refine .inr ⟨fun hok => hno hok.2.1, t, ?_, hr⟩
    simp only [bind, Except.bind, hrun]

theorem Ends.congr {cond : ℕ → Bool} {n : ℕ} {a b : Prop} {r : Except State Waited}
    (he : Ends cond n a s r) (hab : a ↔ b) : Ends cond n b s r := by
  rwa [Ends, ← hab]

theorem ends_call (w : Call) (h : Host) (service : String) (max : Option ℤ) (s : State) :
    Ends (w.looked h) (limit max) (w.Accepted h service max s) s (w.run h service max s) := by
  cases w with
  | waitUp => exact (ends_waitUp h service max s).congr (by simp [Call.Accepted, Call.commands])
  | waitDown => exact (ends_waitDown h service max s).congr (by simp [Call.Accepted, Call.commands])
  | start =>
      exact (ends_startAndWait _ _ h service max s).congr (by simp [Call.Accepted, Call.commands])
  | restart =>
      exact (ends_startAndWait _ _ h service max s).congr (by simp [Call.Accepted, Call.commands])
  | stop => exact (ends_stop h service max s).congr (by simp [Call.Accepted, Call.commands])

/-- Every function that waits for a service takes at most `max` looks (ten if no time is given)
and succeeds if one of them shows what its loop waits for. It gets to its loop if the arguments
are good and its command succeeds without a word in `$stderr`, and otherwise exits with a verdict
recorded. -/
theorem service_call_ends (w : Call) (h : Host) (service : String) (max : Option ℤ) (s : State) :
    (w.Accepted h service max s → ∃ r, w.run h service max s = .ok r ∧
      Polls (w.looked h) (limit max) r.seen (r.status = 0)) ∧
    (¬ w.Accepted h service max s → ∃ t, w.run h service max s = .error t ∧ Recorded s t) := by
  rcases ends_call w h service max s with ⟨hok, hpolls⟩ | ⟨hno, hend⟩
  · exact ⟨fun _ => hpolls, fun hno => absurd hok hno⟩
  · exact ⟨fun hok => absurd hok hno, fun _ => hend⟩

/-- The functions that wait for a service to be down wait for it, whatever the other commands
answer, exactly on the hosts that are no Ubuntu. -/
theorem service_awaited_iff (w : Call) (ubuntu : Bool) (command : Command) (service : String)
    (max : Option ℤ) (s : State)
    (haccepted : w.Accepted ⟨ubuntu, command, fun _ => true, fun _ => false⟩ service max s) :
    (∀ isUp garbled, ∃ r, w.run ⟨ubuntu, command, isUp, garbled⟩ service max s = .ok r ∧
      Polls (w.awaited isUp) (limit max) r.seen (r.status = 0)) ↔
      (w.waitsForUp = true ∨ ubuntu = false) := by
  have hruns : ∀ isUp garbled, ∃ r, w.run ⟨ubuntu, command, isUp, garbled⟩ service max s = .ok r ∧
      Polls (w.looked ⟨ubuntu, command, isUp, garbled⟩) (limit max) r.seen (r.status = 0) := by
    intro isUp garbled
    rcases ends_call w ⟨ubuntu, command, isUp, garbled⟩ service max s with ⟨-, hpolls⟩ | ⟨hno, -⟩
    · exact hpolls
    · exact absurd haccepted hno
  constructor
  · intro hall
    by_contra hneither
    simp only [not_or, Bool.not_eq_true, Bool.not_eq_false] at hneither
    obtain ⟨hdown, rfl⟩ := hneither
    obtain ⟨r, hr, hpolls⟩ := hall (fun _ => true) fun _ => false
    obtain ⟨r', hr', hpolls'⟩ := hruns (fun _ => true) fun _ => false
    obtain rfl : r = r' := Except.ok.inj (hr.symm.trans hr')
    have hpos : 0 < limit max := by
      have hpositive := haccepted.2.1
      cases max with
      | none => decide
      | some n =>
          have hn : 0 < n := hpositive n rfl
          simp only [limit, Option.getD_some]
          omega
    have hstatus : r.status = 0 :=
      hpolls'.success_iff.mpr ⟨0, hpos, by simp [Call.looked, hdown, Host.stillUp]⟩
    obtain ⟨i, -, hi⟩ := hpolls.success_iff.mp hstatus
    simp [Call.awaited, hdown] at hi
  · intro hgood isUp garbled
    have hsame : w.looked ⟨ubuntu, command, isUp, garbled⟩ = w.awaited isUp := by
      funext i
      rcases hgood with hup | rfl
      · simp [Call.looked, Call.awaited, hup]
      · simp [Call.looked, Call.awaited, Host.stillUp]
    rw [← hsame]
    exact hruns isUp garbled

/-- On an Ubuntu, `tc_service_stop_and_wait` does not wait. -/
theorem service_awaited_iff_ubuntu :
    (∀ isUp garbled, ∃ r,
      Call.stop.run ⟨true, ⟨0, "", "", by decide⟩, isUp, garbled⟩ "sshd" none calm = .ok r ∧
        Polls (Call.stop.awaited isUp) (limit none) r.seen (r.status = 0)) ↔
      (Call.stop.waitsForUp = true ∨ true = false) :=
  service_awaited_iff .stop true ⟨0, "", "", by decide⟩ "sshd" none calm
    ⟨by decide, by simp [Positive], fun _ => ⟨rfl, .inr rfl⟩⟩

/-- A call for the status of a service returns that of the command and records nothing. -/
theorem tcServiceStatus_cases (status : Command) (service : String) (s : State) :
    (service ≠ "" ∧ ∃ t, tcServiceStatus status service s = .ok (t, status.rc) ∧
        t.results = s.results) ∨
      (service = "" ∧ ∃ t, tcServiceStatus status service s = .error t ∧ Recorded s t) := by
  rw [tcServiceStatus]
  rcases checkService_cases "tc_service_status" service s with ⟨hservice, hrun⟩ | ⟨hno, t, hrun, hr⟩
  · refine .inl ⟨hservice, ?_⟩
    have hfiles := (prints_tcInfo ["checking the status of the service " ++ service] s).trans
      (prints_setFiles _ status.stdout status.stderr)
    simp only [bind, Except.bind, hrun]
    split_ifs
    · exact ⟨_, rfl, results_of_prints (hfiles.trans (prints_tcInfo _ _))⟩
    · exact ⟨_, rfl, results_of_prints (hfiles.trans (prints_tcInfo _ _))⟩
  · refine .inr ⟨hno, t, ?_, hr⟩
    simp only [bind, Except.bind, hrun]

/-! ## Mail -/

variable {test : ℕ → Bool}

theorem awaitMail_stop {fuel i : ℕ} (n : ℤ) (hi : test i = false) :
    awaitMail test (fuel + 1) i n = some (i + 1, n) := by
  simp [awaitMail, hi]

theorem awaitMail_go {fuel i : ℕ} {n : ℤ} (hi : test i = true) (hn : n ≠ 1) :
    awaitMail test (fuel + 1) i n = awaitMail test fuel (i + 1) (n - 1) := by
  have hne : n - 1 ≠ 0 := by omega
  simp [awaitMail, hi, hne]

/-- With a positive time the loop is that of the other waits. -/
theorem awaitMail_pos (n i : ℕ) {fuel : ℕ} (hfuel : n < fuel) :
    ∃ p, awaitMail test fuel i (n + 1 : ℕ) = some p ∧
      Follows p.1 (mailStatus p) (observe (fun j => !test j) (n + 1) i) := by
  obtain ⟨fuel, rfl⟩ := Nat.exists_eq_succ_of_ne_zero (Nat.ne_of_gt (Nat.zero_lt_of_lt hfuel))
  induction n generalizing i fuel with
  | zero =>
      cases hi : test i with
      | false =>
          rw [observe_succ_of_holds (by simp [hi])]
          exact ⟨_, awaitMail_stop _ hi, rfl, by simp [mailStatus]⟩
      | true =>
          rw [observe_succ_of_not (by simp [hi])]
          exact ⟨(i + 1, 0), by simp [awaitMail, hi], rfl, by simp [mailStatus, observe]⟩
  | succ n ih =>
      cases hi : test i with
      | false =>
          rw [observe_succ_of_holds (by simp [hi])]
          refine ⟨_, awaitMail_stop _ hi, rfl, iff_of_true (if_pos ?_) rfl⟩
          simp only
          omega
      | true =>
          rw [observe_succ_of_not (by simp [hi]), awaitMail_go hi (by omega)]
          obtain ⟨fuel, rfl⟩ : ∃ k, fuel = k + 1 := ⟨fuel - 1, by omega⟩
          have hless : ((n + 1 + 1 : ℕ) : ℤ) - 1 = (n + 1 : ℕ) := by omega
          rw [hless]
          exact ih (i + 1) fuel (by omega)

/-- With a negative time the counter never becomes 0: the loop ends when the test fails. -/
theorem awaitMail_neg {fuel i : ℕ} {n : ℤ} (hn : n < 0) {p : ℕ × ℤ}
    (hrun : awaitMail test fuel i n = some p) :
    p.2 < 0 ∧ i < p.1 ∧ test (p.1 - 1) = false ∧ ∀ j, i ≤ j → j < p.1 - 1 → test j = true := by
  induction fuel generalizing i n with
  | zero => simp [awaitMail] at hrun
  | succ fuel ih =>
      cases hi : test i with
      | false =>
          rw [awaitMail_stop n hi, Option.some.injEq] at hrun
          subst p
          exact ⟨hn, Nat.lt_succ_self i, hi, fun j hj hlt => by omega⟩
      | true =>
          rw [awaitMail_go hi (by omega)] at hrun
          obtain ⟨hneg, hlt, hstop, hbefore⟩ := ih (by omega) hrun
          refine ⟨hneg, by omega, hstop, fun j hj hjlt => ?_⟩
          rcases Nat.eq_or_lt_of_le hj with rfl | hj
          · exact hi
          · exact hbefore j hj hjlt

theorem awaitMail_neg_ends {i j : ℕ} {n : ℤ} (hn : n < 0) (hij : i ≤ j) (hj : test j = false) :
    ∃ p, awaitMail test (j - i + 1) i n = some p := by
  obtain ⟨k, rfl⟩ := Nat.exists_eq_add_of_le hij
  rw [Nat.add_sub_cancel_left]
  induction k generalizing i n with
  | zero => exact ⟨_, awaitMail_stop n hj⟩
  | succ k ih =>
      cases hi : test i with
      | false => exact ⟨_, awaitMail_stop n hi⟩
      | true =>
          rw [awaitMail_go hi (by omega)]
          refine ih (by omega) (by omega) ?_
          rwa [Nat.add_assoc, Nat.add_comm 1]

/-- The functions that wait for mail. -/
inductive MailCall where
  | mail
  | noMail

namespace MailCall

/-- `answers` tell when `mail -e` succeeds. -/
def run (answers : ℕ → Bool) (nargs : ℕ) (max : Option ℤ) (fuel : ℕ) (s : State) :
    MailCall → Except State (Option (State × ℕ × ℕ))
  | mail => tcWaitForMail answers nargs max fuel s
  | noMail => tcWaitForNoMail answers nargs max fuel s

def default : MailCall → ℤ
  | mail => 120
  | noMail => 60

def awaited (answers : ℕ → Bool) : MailCall → ℕ → Bool
  | mail, i => answers i
  | noMail, i => !answers i

end MailCall

theorem checkMail_cases (funcname : String) (nargs : ℕ) (max : Option ℤ) (default : ℤ)
    (s : State) :
    ((nargs = 1 ∨ nargs = 2) ∧ max.getD default ≠ 0 ∧
        checkMail funcname nargs max default s = .ok (max.getD default, s)) ∨
      (¬ ((nargs = 1 ∨ nargs = 2) ∧ max.getD default ≠ 0) ∧
        ∃ t, checkMail funcname nargs max default s = .error t ∧ Recorded s t) := by
  rw [checkMail]
  rcases orExit_cases (decide (nargs = 1 ∨ nargs = 2))
    ("Internal testcase error wrong nbr args to " ++ funcname) s with
    ⟨hargs, hrun⟩ | ⟨hargs, t, hrun, hr⟩
  · rcases orExit_cases (decide (max.getD default ≠ 0)) ("Internal testcase error: " ++
      (max.map toString).getD "" ++ " is not valid integer in " ++ funcname) s with
      ⟨hn, hrun'⟩ | ⟨hn, t, hrun', hr⟩
    · refine .inl ⟨of_decide_eq_true hargs, of_decide_eq_true hn, ?_⟩
      simp only [bind, Except.bind, hrun, hrun']
      rfl
    · refine .inr ⟨fun hok => of_decide_eq_false hn hok.2, t, ?_, hr⟩
      simp only [bind, Except.bind, hrun, hrun']
  · refine .inr ⟨fun hok => of_decide_eq_false hargs hok.1, t, ?_, hr⟩
    simp only [bind, Except.bind, hrun]

/-- What a call that waits for mail does after its arguments are checked. -/
theorem mailCall_cases (w : MailCall) (answers : ℕ → Bool) (nargs : ℕ) (max : Option ℤ)
    (s : State) :
    ((nargs = 1 ∨ nargs = 2) ∧ max.getD w.default ≠ 0 ∧ ∀ fuel,
        w.run answers nargs max fuel s = .ok ((awaitMail (fun i => !w.awaited answers i) fuel 0
          (max.getD w.default)).map fun p => (s, p.1, mailStatus p))) ∨
      (¬ ((nargs = 1 ∨ nargs = 2) ∧ max.getD w.default ≠ 0) ∧
        ∃ t, Recorded s t ∧ ∀ fuel, w.run answers nargs max fuel s = .error t) := by
  cases w with
  | mail =>
      rcases checkMail_cases "tc_wait_for_mail" nargs max 120 s with
        ⟨hargs, hn, hrun⟩ | ⟨hbad, t, hrun, hr⟩
      · refine .inl ⟨hargs, hn, fun fuel => ?_⟩
        simp only [MailCall.run, tcWaitForMail, bind, Except.bind, hrun]
        rfl
      · refine .inr ⟨hbad, t, hr, fun fuel => ?_⟩
        simp only [MailCall.run, tcWaitForMail, bind, Except.bind, hrun]
  | noMail =>
      rcases checkMail_cases "tc_wait_for_no_mail" nargs max 60 s with
        ⟨hargs, hn, hrun⟩ | ⟨hbad, t, hrun, hr⟩
      · refine .inl ⟨hargs, hn, fun fuel => ?_⟩
        simp only [MailCall.run, tcWaitForNoMail, bind, Except.bind, hrun, MailCall.awaited,
          Bool.not_not]
        rfl
      · refine .inr ⟨hbad, t, hr, fun fuel => ?_⟩
        simp only [MailCall.run, tcWaitForNoMail, bind, Except.bind, hrun]

/-- A call that waits for mail with a positive time polls. With a negative one it waits until
the mail is there, for ever if it never is, and then fails. -/
theorem mail_call_ends (w : MailCall) (answers : ℕ → Bool) (nargs : ℕ) (max : Option ℤ)
    (s : State) :
    let n := max.getD w.default
    let args := nargs = 1 ∨ nargs = 2
    (args ∧ 0 < n → ∃ fuel seen status,
      w.run answers nargs max fuel s = .ok (some (s, seen, status)) ∧
        Polls (w.awaited answers) n.toNat seen (status = 0)) ∧
    (args ∧ n < 0 → ((∃ fuel r, w.run answers nargs max fuel s = .ok (some r)) ↔
        ∃ i, w.awaited answers i = true) ∧
      ∀ fuel seen status, w.run answers nargs max fuel s = .ok (some (s, seen, status)) →
        status = 1 ∧ w.awaited answers (seen - 1) = true) ∧
    (¬ (args ∧ n ≠ 0) → ∃ t, Recorded s t ∧ ∀ fuel, w.run answers nargs max fuel s = .error t) := by
  intro n args
  rcases mailCall_cases w answers nargs max s with ⟨hargs, hn, hrun⟩ | ⟨hbad, hend⟩
  · refine ⟨fun ⟨_, hpos⟩ => ?_, fun ⟨_, hneg⟩ => ⟨⟨?_, ?_⟩, ?_⟩,
      fun hbad => absurd ⟨hargs, hn⟩ hbad⟩
    · obtain ⟨k, hk⟩ : ∃ k : ℕ, n = (k + 1 : ℕ) := ⟨n.toNat - 1, by omega⟩
      obtain ⟨p, hp, hfollows⟩ := @awaitMail_pos (fun i => !w.awaited answers i) k 0 (k + 1)
        (Nat.lt_succ_self k)
      refine ⟨k + 1, p.1, mailStatus p, ?_, ?_⟩
      · have hn' : max.getD w.default = (k + 1 : ℕ) := hk
        rw [hrun, hn', hp]
        rfl
      · have hpolls := hfollows.polls
        simp only [Bool.not_not] at hpolls
        rwa [hk, Int.toNat_natCast]
    · rintro ⟨fuel, r, hr⟩
      rw [hrun, Except.ok.injEq, Option.map_eq_some_iff] at hr
      obtain ⟨p, hp, -⟩ := hr
      obtain ⟨-, -, hstop, -⟩ := awaitMail_neg hneg hp
      exact ⟨p.1 - 1, by simpa using hstop⟩
    · rintro ⟨i, hi⟩
      obtain ⟨p, hp⟩ := @awaitMail_neg_ends (fun i => !w.awaited answers i) 0 i _ hneg
        (Nat.zero_le i) (by simp [hi])
      exact ⟨_, (s, p.1, mailStatus p), by rw [hrun, hp]; rfl⟩
    · intro fuel seen status hr
      rw [hrun, Except.ok.injEq, Option.map_eq_some_iff] at hr
      obtain ⟨p, hp, heq⟩ := hr
      obtain ⟨hleft, -, hstop, -⟩ := awaitMail_neg hneg hp
      simp only [Prod.mk.injEq, true_and] at heq
      obtain ⟨rfl, rfl⟩ := heq
      exact ⟨if_neg (by omega), by simpa using hstop⟩
  · exact ⟨fun ⟨hargs, hpos⟩ => absurd ⟨hargs, by omega⟩ hbad,
      fun ⟨hargs, hneg⟩ => absurd ⟨hargs, by omega⟩ hbad, fun _ => hend⟩

end AutotestClient.Harness.Services
