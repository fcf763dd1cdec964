import AutotestClient.Verification.CheckTsc.Handshake

/-! # Deadlock freedom of the handshake, up to the slave's error exit

The slave leaves with `slave.state = ERROR` when its affinity call fails, and the master
waits for `READY` only. Runs without such a failure never get stuck. -/

namespace AutotestClient.CheckTsc

open Shared

variable {c : Config} {h : History} {s s' : State}

/-- Some process can do more than test again a condition that is false. -/
def CanMove (c : Config) (s : State) : Prop :=
  ∃ l s', step c s l = some s' ∧ l ≠ .master .retest ∧ l ≠ .slave .retest

/-- The master waits for a slave that has exited or waits for the master. -/
def Deadlocked (s : State) : Prop :=
  s.masterWaits = true ∧ (s.slavePc = .exited ∨ s.slaveWaits = true)

theorem canMove_master {l : MasterLabel} (hr : MasterRule c s l s') (hl : l ≠ .retest) :
    CanMove c s :=
  ⟨.master l, s', hr.execution, by simpa using hl, by simp⟩

theorem canMove_slave {l : SlaveLabel} (hr : SlaveRule s l s') (hl : l ≠ .retest) :
    CanMove c s :=
  ⟨.slave l, s', hr.execution, by simp, by simpa using hl⟩

/-! ## Who can move -/

/-- A master that has not returned and does not wait has a next step. -/
theorem canMove_of_not_waits (hc : Coupled s) (hret : ∀ err, s.masterPc ≠ .returned err)
    (hwait : s.masterWaits = false) : CanMove c s := by
  cases hpc : s.masterPc with
  | create => exact canMove_master (.create hpc) (by simp)
  | pair =>
      cases htodo : s.todo with
      | nil => exact canMove_master (.storeStop hpc htodo) (by simp)
      | cons p rest => exact canMove_master (.affinity hpc htodo) (by simp)
  | storeCpu =>
      simp only [Coupled, hpc] at hc
      obtain ⟨-, a, b, rest, htodo, -⟩ := hc
      exact canMove_master (.storeCpu hpc htodo) (by simp)
  | ready => exact canMove_master (.ready hpc) (by simp)
  | waitReady =>
      have hflag : s.slaveFlag = .ready := by simpa [State.masterWaits, hpc] using hwait
      exact canMove_master (.sawReady hpc hflag) (by simp)
  | readT0 => exact canMove_master (.readT0 0 hpc) (by simp)
  | done => exact canMove_master (.done hpc) (by simp)
  | waitDone =>
      have hflag : s.slaveFlag = .done := by simpa [State.masterWaits, hpc] using hwait
      exact canMove_master (.sawDone hpc hflag) (by simp)
  | readT1 => exact canMove_master (.readT1 0 hpc) (by simp)
  | compare => exact canMove_master (.compare hpc) (by simp)
  | delta => exact canMove_master (.delta hpc) (by simp)
  | stopReady => exact canMove_master (.stopReady hpc) (by simp)
  | join =>
      have hexit : s.slavePc = .exited := by simpa [State.masterWaits, hpc] using hwait
      exact canMove_master (.join hpc hexit) (by simp)
  | returned err => exact absurd hpc (hret err)

/-- While the slave works towards its answer it has a next step. -/
theorem answering_moves (ha : Answering s) (hflag : s.masterFlag = .ready)
    (hexit : s.slavePc ≠ .exited) : ∃ l s', SlaveRule s l s' ∧ l ≠ .retest := by
  cases hpc : s.slavePc with
  | waitReady => exact ⟨_, _, .sawReady hpc hflag, by simp⟩
  | testStop =>
      by_cases hcpu : s.slaveCpu < 0
      · exact ⟨_, _, .stop hpc hcpu, by simp⟩
      · exact ⟨_, _, .go hpc hcpu, by simp⟩
  | testCpu =>
      by_cases hcpu : s.slaveCpu = s.currentCpu
      · exact ⟨_, _, .stay hpc hcpu, by simp⟩
      · exact ⟨_, _, .move hpc hcpu, by simp⟩
  | affinity => exact ⟨_, _, .affinity hpc, by simp⟩
  | setCurrent => exact ⟨_, _, .setCurrent hpc, by simp⟩
  | ready => exact ⟨_, _, .ready hpc, by simp⟩
  | error => exact ⟨_, _, .error hpc, by simp⟩
  | exited => exact absurd hpc hexit
  | _ => simp [Answering, hpc] at ha

/-- A waiting master waits for a slave that can move, unless the slave has exited. -/
theorem slave_moves_of_waits (hc : Coupled s) (hwait : s.masterWaits = true)
    (hexit : s.slavePc ≠ .exited) : ∃ l s', SlaveRule s l s' ∧ l ≠ .retest := by
  cases hpc : s.masterPc with
  | waitReady =>
      have hflag : s.slaveFlag ≠ .ready := by simpa [State.masterWaits, hpc] using hwait
      simp only [Coupled, hpc] at hc
      obtain ⟨-, hmaster, ⟨ha, -⟩ | ⟨-, hslave, -⟩⟩ := hc
      · exact answering_moves ha hmaster hexit
      · exact absurd hslave hflag
  | waitDone =>
      have hflag : s.slaveFlag ≠ .done := by simpa [State.masterWaits, hpc] using hwait
      simp only [Coupled, hpc] at hc
      obtain ⟨-, hmaster, -, ⟨hslave | hslave | hslave, -⟩ | ⟨-, hdone⟩⟩ := hc
      · exact ⟨_, _, .sawDone hslave hmaster, by simp⟩
      · exact ⟨_, _, .write 0 hslave, by simp⟩
      · exact ⟨_, _, .done hslave, by simp⟩
      · exact absurd hdone hflag
  | join =>
      simp only [Coupled, hpc] at hc
      obtain ⟨hmaster, hcpu, -, hslave | hslave | hslave⟩ := hc
      · exact ⟨_, _, .sawReady hslave hmaster, by simp⟩
      · exact ⟨_, _, .stop hslave (by rw [hcpu]; decide), by simp⟩
      · exact absurd hslave hexit
  | _ => simp [State.masterWaits, hpc] at hwait

theorem not_slaveWaits_of_rule {l : SlaveLabel} (hr : SlaveRule s l s') (hl : l ≠ .retest) :
    s.slaveWaits = false := by
  cases hr with
  | retest => exact absurd rfl hl
  | _ => simp_all [State.slaveWaits]

/-! ## The one way to get stuck -/

/-- The slave has exited while the master waits for its `READY`. -/
def Stuck (s : State) : Prop := s.masterPc = .waitReady ∧ s.slavePc = .exited

theorem not_exited_of_waits (hc : Coupled s) (hstuck : ¬ Stuck s) (hwait : s.masterWaits = true) :
    s.slavePc ≠ .exited := by
  intro hexit
  cases hpc : s.masterPc with
  | waitReady => exact hstuck ⟨hpc, hexit⟩
  | waitDone =>
      simp only [Coupled, hpc] at hc
      rcases hc.2.2.2 with ⟨hs | hs | hs, -⟩ | ⟨hs, -⟩ <;> cases hexit.symm.trans hs
  | join => simp [State.masterWaits, hpc, hexit] at hwait
  | _ => simp [State.masterWaits, hpc] at hwait

/-- Until `check_tsc` returns some process can move and the two do not wait for each
other. -/
def Progress (c : Config) (s : State) : Prop :=
  (∀ err, s.masterPc ≠ .returned err) → CanMove c s ∧ ¬ Deadlocked s

theorem progress_iff (hc : Coupled s) : Progress c s ↔ ¬ Stuck s := by
  constructor
  · rintro hp ⟨hpc, hexit⟩
    refine (hp (by simp [hpc])).2 ⟨?_, .inl hexit⟩
    simp only [Coupled, hpc] at hc
    rcases hc.2.2 with ⟨-, hflag⟩ | ⟨hslave, -⟩
    · simpa [State.masterWaits, hpc] using hflag
    · cases hexit.symm.trans hslave
  · intro hstuck hret
    cases hwait : s.masterWaits with
    | false => exact ⟨canMove_of_not_waits hc hret hwait, by simp [Deadlocked, hwait]⟩
    | true =>
        have hexit := not_exited_of_waits hc hstuck hwait
        obtain ⟨l, s', hr, hl⟩ := slave_moves_of_waits hc hwait hexit
        refine ⟨canMove_slave hr hl, ?_⟩
        rintro ⟨-, hs | hs⟩
        · exact hexit hs
        · simp [not_slaveWaits_of_rule hr hl] at hs

/-- Only the error exit of the slave leads to a stuck state. -/
theorem stuck_step {l : Label} (hc : Coupled s) (hstuck : ¬ Stuck s) (hr : Rule c s l s') :
    Stuck s' ↔ l = .slave .error := by
  cases hr with
  | master hr =>
      refine iff_of_false ?_ (by simp)
      rintro ⟨hmaster, hexit⟩
      cases hr with
      | ready hpc =>
          simp only [Coupled, hpc] at hc
          cases hexit.symm.trans hc.1.slavePc
      | storeCpu hpc htodo =>
          simp only [Config.loopPc] at hmaster
          split at hmaster <;> cases hmaster
      | compare hpc =>
          simp only [Config.loopPc] at hmaster
          split at hmaster <;> cases hmaster
      | retest hwait => exact hstuck ⟨hmaster, hexit⟩
      | _ => cases hmaster
  | slave hr =>
      cases hr with
      | error hpc =>
          have hi := hc.inviting (.inr (.inr (.inr (.inr hpc))))
          exact iff_of_true ⟨hi.masterPc, rfl⟩ rfl
      | stop hpc hcpu =>
          refine iff_of_false ?_ (by simp)
          rintro ⟨hmaster, -⟩
          rcases hc.round (.inr hpc) with h | h
          · obtain ⟨a, b, hm⟩ := h.measuring
            exact absurd hm.nonneg (by omega)
          · cases hmaster.symm.trans h.masterPc
      | retest hwait => exact iff_of_false hstuck (by simp)
      | _ => exact iff_of_false (fun h => by cases h.2) (by simp)

/-- In a run of `check_tsc` the two processes never get stuck exactly if the slave never
takes its error exit, and it takes that exit only after one of its affinity calls has
failed. -/
theorem checkTsc_progress_iff (run : (machine c).Run h s) :
    ((∀ t ∈ Machine.visited h s, Progress c t) ↔ ∀ e ∈ h, e.2 ≠ .slave .error) ∧
      ((∃ e ∈ h, e.2 = .slave .error) → ∃ e ∈ h, e.2 = .slave (.affinity false)) := by
  refine ⟨?_, affinityFailed_of_error_mem run⟩
  refine run.forall_visited_iff (I := Progress c) (C := fun _ l => l ≠ .slave .error) ?_ ?_
  · exact (progress_iff (coupled_init c)).mpr fun h => by cases h.1
  · intro h s l s' run hp hs
    have hc := (coupled_run run).1
    have hstuck := (progress_iff hc).mp hp
    rw [progress_iff (coupled_run (.step run hs)).1,
      stuck_step hc hstuck (step_iff_rule.mp hs)]

/-- The first exchange of two CPUs: both processes are bound, wait for each other and go on. -/
theorem checkTsc_progress_exchange :
    ∃ h s, (machine (checkTsc {0, 1} 500)).Run h s ∧ s.masterPc = .ready ∧ s.iter = 1 ∧
      s.masterBound = some 0 ∧ s.slaveBound = some 1 ∧
      ∀ t ∈ Machine.visited h s, Progress (checkTsc {0, 1} 500) t := by
  have hc : checkTsc {0, 1} 500 = ⟨[(0, 1), (1, 0)], 10, 500⟩ := by
    rw [checkTsc, show cpuPairs {0, 1} = [(0, 1), (1, 0)] by decide +kernel, numIters]
  rw [hc]
  let labels : List Label :=
    [.master (.create true), .master (.affinity true), .master .storeCpu, .slave .retest,
      .master .ready, .master .retest, .slave .sawReady, .slave .testStop, .slave .testCpu,
      .slave (.affinity true), .slave .setCurrent, .slave .ready, .master .sawReady,
      .slave .retest, .master (.readT0 100), .master .done, .slave .sawDone, .master .retest,
      .slave (.write 150), .slave .done, .master .sawDone, .master (.readT1 200),
      .master .compare]
  have run := (machine ⟨[(0, 1), (1, 0)], 10, 500⟩).run_of_replay labels rfl
  exact ⟨_, _, run, rfl, rfl, rfl, rfl, (checkTsc_progress_iff run).1.mpr (by decide)⟩

/-- CPU 1 is refused to the slave: the master waits for `READY` of a thread that is gone. -/
theorem checkTsc_progress_fails :
    ∃ h s, (machine (checkTsc {0, 1} 500)).Run h s ∧ s.masterPc = .waitReady ∧
      Deadlocked s ∧ ¬ CanMove (checkTsc {0, 1} 500) s := by
  have hc : checkTsc {0, 1} 500 = ⟨[(0, 1), (1, 0)], 10, 500⟩ := by
    rw [checkTsc, show cpuPairs {0, 1} = [(0, 1), (1, 0)] by decide +kernel, numIters]
  rw [hc]
  let labels : List Label :=
    [.master (.create true), .master (.affinity true), .master .storeCpu, .master .ready,
      .slave .sawReady, .slave .testStop, .slave .testCpu, .slave (.affinity false),
      .slave .error]
  have run := (machine ⟨[(0, 1), (1, 0)], 10, 500⟩).run_of_replay labels rfl
  refine ⟨_, _, run, rfl, ⟨rfl, .inl rfl⟩, ?_⟩
  rintro ⟨l, s', hs, hm, hsl⟩
  cases step_iff_rule.mp hs with
  | master hr => cases hr <;> contradiction
  | slave hr => cases hr <;> contradiction

end AutotestClient.CheckTsc
