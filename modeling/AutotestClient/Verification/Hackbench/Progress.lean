import AutotestClient.Verification.Hackbench.Termination

/-! # No run of `hackbench` is stuck, and what it has done at its end -/

namespace AutotestClient.Hackbench

open Shared

variable {c : Config} {s s' : State c} {l : Label c} {h : List (State c × Label c)}

/-! ## The reaped workers -/

/-- `wait` or `pthread_join` took the worker away. -/
def Phase.isReaped : Phase → Bool
  | .reaped => true
  | _ => false

theorem Phase.isReaped_iff {ph : Phase} : ph.isReaped = true ↔ ph = .reaped := by
  cases ph <;> simp [Phase.isReaped]

/-- `main` counts the workers that it has reaped, threads in the order of `pth_tab`. -/
structure Reaping (s : State c) : Prop where
  counted : ∀ i, s.main = .reaping i → count Phase.isReaped s.phase = i
  ordered : ∀ i, s.main = .reaping i → c.processMode = false →
    ∀ w, s.phase w = .reaped ↔ number w < i
  finished : s.main = .exited 0 → ∀ w, s.phase w = .reaped

/-- A worker moves on, and neither where it was nor where it goes is it reaped. -/
theorem Reaping.enter (hr : Reaping s) {w : Worker c} {ph : Phase} (hw : s.phase w ≠ .reaped)
    (hph : ph ≠ .reaped) : Reaping (s.enter w ph) := by
  constructor
  · intro i hi
    refine (count_update_of_eq ?_).trans (hr.counted i hi)
    rw [Bool.eq_iff_iff, Phase.isReaped_iff, Phase.isReaped_iff]
    exact ⟨fun h => absurd h hph, fun h => absurd h hw⟩
  · intro i hi hmode
    refine enter_forall (P := fun v ph => ph = .reaped ↔ number v < i) (fun v _ => ?_) ?_
    · exact hr.ordered i hi hmode v
    · rw [← hr.ordered i hi hmode w]
      exact ⟨fun h => absurd h hph, fun h => absurd h hw⟩
  · intro hmain
    exact absurd (hr.finished hmain w) hw

/-- A step that does not hang on a kernel that lets only part of a message through, and
is none of the failures. -/
def Label.prompt (s : State c) : Label c → Prop
  | .write g i ret =>
      s.channel g (s.pump g i).j = 0 ∧ (s.pump g i).done + ret = dataSize
  | .forkFails | .sigpipe _ _ | .readEof _ _ => False
  | _ => True

def CanGoOn (s : State c) : Prop := ∃ l : Label c, l.prompt s ∧ (step c s l).isSome

theorem canGoOn_poll {w : Worker c} (hrun : s.workersRun) (hw : s.phase w = .polling)
    (hwake : s.wakeBytes ≠ 0) : CanGoOn s :=
  ⟨.poll w, trivial, by simp [step, hrun, hw, Nat.pos_of_ne_zero hwake]⟩

/-- A receiver with something in its channel reads it. -/
theorem canGoOn_read {g : Fin c.numGroups} {j : Fin c.numFds} (hl : Ledger s)
    (hreads : s.reads g j) (hbytes : s.channel g j ≠ 0) : CanGoOn s := by
  have hdone : (s.receipt g j).done < dataSize := by
    rcases hl.receipt g j with ⟨-, hdone⟩ | ⟨heq, -⟩
    · exact hdone
    · exact absurd hreads.2.2 (by omega)
  refine ⟨.read g j 1, trivial, ?_⟩
  have hguard : s.reads g j ∧ 0 < 1 ∧ (s.receipt g j).done + 1 ≤ dataSize ∧
      1 ≤ s.channel g j := ⟨hreads, Nat.one_pos, hdone, Nat.pos_of_ne_zero hbytes⟩
  simp only [step]
  rw [if_pos hguard]
  rfl

/-- A sender at an empty channel writes the rest of its message. -/
theorem canGoOn_write {g : Fin c.numGroups} {i : Fin c.numFds} (hl : Ledger s) (he : Ends s)
    (hsize : c.numFds * c.loops < 2 ^ 32) (hcap : dataSize ≤ c.capacity)
    (hwrites : s.writes g i) (hempty : s.channel g (s.pump g i).j = 0) : CanGoOn s := by
  have hdone : (s.pump g i).done < dataSize := by
    rcases hl.pump g i with ⟨-, hdone⟩ | ⟨heq, -⟩
    · exact hdone
    · exact absurd hwrites.2.2 (by omega)
  refine ⟨.write g i (dataSize - (s.pump g i).done), ⟨hempty, by omega⟩, ?_⟩
  have hguard : s.writes g i ∧ ¬ s.readEndClosed g (s.pump g i).j ∧
      0 < dataSize - (s.pump g i).done ∧
      (s.pump g i).done + (dataSize - (s.pump g i).done) ≤ dataSize ∧
      s.channel g (s.pump g i).j + (dataSize - (s.pump g i).done) ≤ c.capacity :=
    ⟨hwrites, he.not_readEndClosed hl hsize hwrites, by omega, by omega, by omega⟩
  simp only [step]
  rw [if_pos hguard]
  rfl

/-- A worker after the barrier is polling, running or gone. -/
theorem phase_cases {ph : Phase} (h : ph.announced = true) :
    ph = .polling ∨ ph = .running ∨ ph.gone = true := by
  cases ph <;> simp_all [Phase.announced, Phase.gone]

/-- All that holds of the state of a run in which `main` is reaping. -/
structure Working (s : State c) : Prop where
  ledger : Ledger s
  ends : Ends s
  run : s.workersRun
  wake : s.wakeBytes ≠ 0
  announced : ∀ w, (s.phase w).announced

/-- A sender in the middle of a message can write it, or its receiver can go on. -/
theorem Working.sender (hw : Working s) (hsize : c.numFds * c.loops < 2 ^ 32)
    (hcap : dataSize ≤ c.capacity) {g : Fin c.numGroups} {i : Fin c.numFds}
    (hph : s.phase (.sender, g, i) = .running) (hi : (s.pump g i).i < c.loops) :
    CanGoOn s := by
  by_cases hempty : s.channel g (s.pump g i).j = 0
  · exact canGoOn_write hw.ledger hw.ends hsize hcap ⟨hw.run, hph, hi⟩ hempty
  · have hmore := hw.ledger.receiver_not_over hsize hi
    rcases phase_cases (hw.announced (.receiver, g, (s.pump g i).j)) with hp | hp | hp
    · exact canGoOn_poll hw.run hp hw.wake
    · exact canGoOn_read hw.ledger ⟨hw.run, hp, hmore⟩ hempty
    · have hover := hw.ends.finished _ hp
      simp only [State.loopOver, decide_eq_true_eq] at hover
      omega

/-- A receiver that waits at an empty channel has a sender that can go on. -/
theorem Working.receiver (hw : Working s) (hsize : c.numFds * c.loops < 2 ^ 32)
    (hcap : dataSize ≤ c.capacity) {g : Fin c.numGroups} {j : Fin c.numFds}
    (hph : s.phase (.receiver, g, j) = .running) (hj : (s.receipt g j).i < c.numPackets) :
    CanGoOn s := by
  by_cases hempty : s.channel g j = 0
  · have hlt := Receipt.received_lt (hw.ledger.receipt g j) hj
    have hbalance := hw.ledger.balance g j
    rw [Config.numPackets_eq hsize, Nat.mul_left_comm] at hlt
    have htotal : total (fun p => p.written j) (s.pump g) <
        Fintype.card (Fin c.numFds) * (dataSize * c.loops) := by
      rw [Fintype.card_fin]
      omega
    obtain ⟨i, hi⟩ := exists_lt_of_total_lt htotal
    have hmore : (s.pump g i).i < c.loops := by
      by_contra hover
      rw [Pump.written_done (hw.ledger.pump g i) (Nat.le_of_not_lt hover) j] at hi
      exact absurd hi (lt_irrefl _)
    rcases phase_cases (hw.announced (.sender, g, i)) with hp | hp | hp
    · exact canGoOn_poll hw.run hp hw.wake
    · exact hw.sender hsize hcap hp hmore
    · have hover := hw.ends.finished _ hp
      simp only [State.loopOver, decide_eq_true_eq] at hover
      omega
  · exact canGoOn_read hw.ledger ⟨hw.run, hph, hj⟩ hempty

end AutotestClient.Hackbench
