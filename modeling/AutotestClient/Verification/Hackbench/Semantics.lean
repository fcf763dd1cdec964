import AutotestClient.Model.Hackbench
import Mathlib.Data.Fintype.Card
import Mathlib.SetTheory.Cardinal.Finite
import Mathlib.Tactic.Common

/-! # The steps of `hackbench` -/

namespace AutotestClient.Hackbench

variable {c : Config} {s s' : State c} {l : Label c}

/-- What each label does, with the conditions under which it can be taken. -/
inductive Step (s : State c) : Label c → State c → Prop where
  | create {w : Worker c} (hmain : s.main = .creating (number w)) :
      Step s (.create w) { s.enter w .ready with main := .creating (number w + 1) }
  | forkFails {k : ℕ} (hmain : s.main = .creating k) (hk : k < c.totalChildren) :
      Step s .forkFails { s with main := .exited c.forkStatus }
  | created {k : ℕ} (hmain : s.main = .creating k) (hk : c.totalChildren ≤ k) :
      Step s .created { s with main := .reading 0 }
  | ready {w : Worker c} (hrun : s.workersRun) (hph : s.phase w = .ready)
      (hroom : s.readyBytes < c.capacity) :
      Step s (.ready w) { s.enter w .polling with readyBytes := s.readyBytes + 1 }
  | readReady {i n : ℕ} (hmain : s.main = .reading i) (hbytes : s.readyBytes = n + 1)
      (hi : i < c.totalChildren) :
      Step s .readReady { s with main := .reading (i + 1), readyBytes := n }
  | wake {i : ℕ} (hmain : s.main = .reading i) (hi : c.totalChildren ≤ i) :
      Step s .wake { s with main := .reaping 0, wakeBytes := s.wakeBytes + 1 }
  | poll {w : Worker c} (hrun : s.workersRun) (hph : s.phase w = .polling)
      (hwake : 0 < s.wakeBytes) : Step s (.poll w) (s.enter w .running)
  | write {g : Fin c.numGroups} {i : Fin c.numFds} {ret : ℕ} (hwrites : s.writes g i)
      (hopen : ¬ s.readEndClosed g (s.pump g i).j) (hpos : 0 < ret)
      (hret : (s.pump g i).done + ret ≤ dataSize)
      (hroom : s.channel g (s.pump g i).j + ret ≤ c.capacity) :
      Step s (.write g i ret)
        ((s.setChannel g (s.pump g i).j (s.channel g (s.pump g i).j + ret)).setPump g i
          ((s.pump g i).add ret))
  | sigpipe {g : Fin c.numGroups} {i : Fin c.numFds} (hwrites : s.writes g i)
      (hclosed : s.readEndClosed g (s.pump g i).j) :
      Step s (.sigpipe g i) (s.enter (.sender, g, i) .killed)
  | read {g : Fin c.numGroups} {j : Fin c.numFds} {ret : ℕ} (hreads : s.reads g j)
      (hpos : 0 < ret) (hret : (s.receipt g j).done + ret ≤ dataSize)
      (hbytes : ret ≤ s.channel g j) :
      Step s (.read g j ret)
        ((s.setChannel g j (s.channel g j - ret)).setReceipt g j ((s.receipt g j).add ret))
  | readEof {g : Fin c.numGroups} {j : Fin c.numFds} (hreads : s.reads g j)
      (hempty : s.channel g j = 0) (hclosed : s.writeEndsClosed g j) :
      Step s (.readEof g j) (s.setReceipt g j ((s.receipt g j).add 0))
  | exit {w : Worker c} (hrun : s.workersRun) (hph : s.phase w = .running)
      (hover : s.loopOver w) : Step s (.exit w) (s.enter w .exited)
  | reap {w : Worker c} {i : ℕ} (hmain : s.main = .reaping i) (hi : i < c.totalChildren)
      (hph : s.phase w = .exited) (hnext : c.processMode ∨ number w = i) :
      Step s (.reap w) { s.enter w .reaped with main := .reaping (i + 1) }
  | reapKilled {w : Worker c} {i : ℕ} (hmain : s.main = .reaping i) (hi : i < c.totalChildren)
      (hph : s.phase w = .killed) :
      Step s (.reap w) { s.enter w .reaped with main := .exited 1 }
  | report {i : ℕ} (hmain : s.main = .reaping i) (hi : c.totalChildren ≤ i) :
      Step s .report { s with main := .exited 0 }

theorem Step.of_step (hs : step c s l = some s') : Step s l s' := by
  cases l with
  | create w =>
      simp only [step] at hs
      split at hs
      · split at hs <;> cases hs
        subst_vars
        exact .create ‹_›
      · cases hs
  | forkFails =>
      simp only [step] at hs
      split at hs
      · split at hs <;> cases hs
        exact .forkFails ‹_› ‹_›
      · cases hs
  | created =>
      simp only [step] at hs
      split at hs
      · split at hs <;> cases hs
        exact .created ‹_› ‹_›
      · cases hs
  | ready w =>
      simp only [step] at hs
      split at hs <;> cases hs
      rename_i hguard
      exact .ready hguard.1 hguard.2.1 hguard.2.2
  | readReady =>
      simp only [step] at hs
      split at hs
      · split at hs <;> cases hs
        exact .readReady ‹_› ‹_› ‹_›
      · cases hs
  | wake =>
      simp only [step] at hs
      split at hs
      · split at hs <;> cases hs
        exact .wake ‹_› ‹_›
      · cases hs
  | poll w =>
      simp only [step] at hs
      split at hs <;> cases hs
      rename_i hguard
      exact .poll hguard.1 hguard.2.1 hguard.2.2
  | write g i ret =>
      simp only [step] at hs
      split at hs <;> cases hs
      rename_i hguard
      exact .write hguard.1 hguard.2.1 hguard.2.2.1 hguard.2.2.2.1 hguard.2.2.2.2
  | sigpipe g i =>
      simp only [step] at hs
      split at hs <;> cases hs
      rename_i hguard
      exact .sigpipe hguard.1 hguard.2
  | read g j ret =>
      simp only [step] at hs
      split at hs <;> cases hs
      rename_i hguard
      exact .read hguard.1 hguard.2.1 hguard.2.2.1 hguard.2.2.2
  | readEof g j =>
      simp only [step] at hs
      split at hs <;> cases hs
      rename_i hguard
      exact .readEof hguard.1 hguard.2.1 hguard.2.2
  | exit w =>
      simp only [step] at hs
      split at hs <;> cases hs
      rename_i hguard
      exact .exit hguard.1 hguard.2.1 hguard.2.2
  | reap w =>
      simp only [step] at hs
      split at hs
      · rename_i i hmain
        split at hs
        · rename_i hguard
          simp only [State.reapable, Bool.and_eq_true, Bool.or_eq_true, decide_eq_true_eq] at hguard
          split at hs <;> cases hs
          · exact .reapKilled hmain hguard.1 ‹_›
          · exact .reap hmain hguard.1 (hguard.2.1.resolve_right ‹_›) hguard.2.2
        · cases hs
      · cases hs
  | report =>
      simp only [step] at hs
      split at hs
      · split at hs <;> cases hs
        exact .report ‹_› ‹_›
      · cases hs

/-! ## The parts of a state -/

@[simp] theorem enter_main (w : Worker c) (ph : Phase) : (s.enter w ph).main = s.main := rfl

@[simp] theorem enter_pump (w : Worker c) (ph : Phase) : (s.enter w ph).pump = s.pump := rfl

@[simp] theorem enter_receipt (w : Worker c) (ph : Phase) :
    (s.enter w ph).receipt = s.receipt := rfl

@[simp] theorem enter_channel (w : Worker c) (ph : Phase) :
    (s.enter w ph).channel = s.channel := rfl

@[simp] theorem enter_readyBytes (w : Worker c) (ph : Phase) :
    (s.enter w ph).readyBytes = s.readyBytes := rfl

@[simp] theorem enter_wakeBytes (w : Worker c) (ph : Phase) :
    (s.enter w ph).wakeBytes = s.wakeBytes := rfl

@[simp] theorem enter_phase_self (w : Worker c) (ph : Phase) : (s.enter w ph).phase w = ph := by
  simp [State.enter]

theorem enter_phase_of_ne {v w : Worker c} {ph : Phase} (h : v ≠ w) :
    (s.enter w ph).phase v = s.phase v := by
  simp [State.enter, h]

/-- A property of all phases survives a move to a phase that has it. -/
theorem enter_forall {P : Worker c → Phase → Prop} {w : Worker c} {ph : Phase}
    (h : ∀ v, v ≠ w → P v (s.phase v)) (hw : P w ph) (v : Worker c) :
    P v ((s.enter w ph).phase v) := by
  by_cases hv : v = w
  · subst v
    simpa using hw
  · rw [enter_phase_of_ne hv]
    exact h v hv

/-! ## The places in `pth_tab` -/

/-- The place of a worker within its group. -/
def offset : Role → Fin c.numFds → ℕ
  | .receiver, i => i
  | .sender, i => c.numFds + i

theorem number_eq (r : Role) (g : Fin c.numGroups) (i : Fin c.numFds) :
    number (r, g, i) = c.numFds * 2 * g + offset r i := by
  cases r <;> simp only [number, offset, Nat.mul_comm]

theorem offset_lt (r : Role) (i : Fin c.numFds) : offset r i < c.numFds * 2 := by
  have hi := i.isLt
  cases r <;> simp only [offset] <;> omega

theorem offset_injective {r r' : Role} {i i' : Fin c.numFds} (h : offset r i = offset r' i') :
    r = r' ∧ i = i' := by
  have hi := i.isLt
  have hi' := i'.isLt
  cases r <;> cases r' <;> simp only [offset] at h
  · exact ⟨rfl, Fin.ext h⟩
  · omega
  · omega
  · exact ⟨rfl, Fin.ext (by omega)⟩

theorem number_lt (w : Worker c) : number w < c.totalChildren := by
  obtain ⟨r, g, i⟩ := w
  have hoffset := offset_lt r i
  have hg : c.numFds * 2 * g + c.numFds * 2 ≤ c.numFds * 2 * c.numGroups := by
    rw [← Nat.mul_succ]
    exact Nat.mul_le_mul_left _ g.isLt
  rw [number_eq, Config.totalChildren, Nat.mul_comm c.numGroups]
  omega

theorem number_injective : Function.Injective (number (c := c)) := by
  intro v w h
  obtain ⟨r, g, i⟩ := v
  obtain ⟨r', g', i'⟩ := w
  rw [number_eq, number_eq] at h
  have hoffset := offset_lt r i
  have hoffset' := offset_lt r' i'
  have hg : (g : ℕ) = g' := by
    have hdiv := congrArg (· / (c.numFds * 2)) h
    simpa only [Nat.mul_add_div (Nat.zero_lt_of_lt hoffset), Nat.div_eq_of_lt hoffset,
      Nat.div_eq_of_lt hoffset', Nat.add_zero] using hdiv
  have hr : offset r i = offset r' i' := by
    rw [hg] at h
    omega
  obtain ⟨rfl, rfl⟩ := offset_injective hr
  rw [Fin.ext hg]

theorem card_worker : Fintype.card (Worker c) = c.totalChildren := by
  have hrole : Fintype.card Role = 2 := rfl
  rw [Fintype.card_prod, Fintype.card_prod, Fintype.card_fin, Fintype.card_fin, hrole,
    Config.totalChildren, Nat.mul_comm c.numFds, Nat.mul_left_comm]

end AutotestClient.Hackbench
