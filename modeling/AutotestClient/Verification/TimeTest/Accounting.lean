import AutotestClient.Model.TimeTest
import AutotestClient.Shared.Threads
import Mathlib.Algebra.Order.Ring.Int
import Mathlib.Data.Multiset.Fold
import Mathlib.Tactic.Linarith

/-! # Exact warp accounting under every interleaving

A measured backward jump is entered into `warps` and `worst` by a later critical
section. Between the two it is pending in its thread's local state. -/

namespace AutotestClient.TimeTest

open Shared

variable {n threshold : ℕ} {h : List (State n × Label n)} {s s' : State n}

/-! ## Readings and differences -/

theorem readings_measure (i : Fin n) (t1 last : Clock) :
    readings ((s, .measure i t1 last) :: h) = readings h ++ [(t1, last)] := by
  simp [readings, Label.reading?]

theorem readings_of_none {l : Label n} (hl : l.reading? = none) :
    readings ((s, l) :: h) = readings h := by
  simp [readings, hl]

/-- The second reading of the last pair, `t0` if there is none. -/
def lastReading : Clock → List (Clock × Clock) → Clock
  | t0, [] => t0
  | _, (_, last) :: rest => lastReading last rest

theorem lastReading_append (t0 : Clock) (rs : List (Clock × Clock)) (t1 last : Clock) :
    lastReading t0 (rs ++ [(t1, last)]) = last := by
  induction rs generalizing t0 with
  | nil => rfl
  | cons r rs ih => exact ih r.2

theorem differences_append (t0 : Clock) (rs : List (Clock × Clock)) (t1 last : Clock) :
    differences t0 (rs ++ [(t1, last)]) =
      differences t0 rs ++ [delta t1 (lastReading t0 rs)] := by
  induction rs generalizing t0 with
  | nil => rfl
  | cons r rs ih => exact congrArg (delta r.1 t0 :: ·) (ih r.2)

theorem jumps_measure (i : Fin n) (t1 last : Clock) :
    jumps threshold ((s, .measure i t1 last) :: h) =
      jumps threshold h ++
        if warp threshold (delta t1 (lastReading 0 (readings h)))
        then [delta t1 (lastReading 0 (readings h))] else [] := by
  simp only [jumps, readings_measure, differences_append, List.filter_append]
  congr 1
  by_cases hw : warp threshold (delta t1 (lastReading 0 (readings h))) = true
  · rw [if_pos hw]
    exact List.filter_cons_of_pos hw
  · rw [if_neg hw]
    exact List.filter_cons_of_neg hw

theorem jumps_of_none {l : Label n} (hl : l.reading? = none) :
    jumps threshold ((s, l) :: h) = jumps threshold h := by
  simp [jumps, readings_of_none hl]

/-! ## The accounting invariant -/

/-- The jump a thread has measured and not yet entered. -/
def Pc.pending : Pc → Multiset ℤ
  | .account d => {d}
  | _ => 0

def State.pending (s : State n) : Multiset ℤ := total Pc.pending s.pc

/-- Every jump among the readings is either entered into `warps` and `worst` or still
pending in one thread. -/
structure Accounted (threshold : ℕ) (h : List (State n × Label n)) (s : State n) : Prop where
  loops : s.test.loops = (readings h).length
  last : s.test.last = lastReading 0 (readings h)
  entered : ∃ entered : Multiset ℤ, entered + s.pending = ↑(jumps threshold h) ∧
    s.test.warps = entered.card ∧ s.test.worst = entered.fold min 0

theorem accounted_init : Accounted threshold [] (machine threshold n).init := by
  refine ⟨rfl, rfl, 0, ?_, rfl, rfl⟩
  have hp : (machine threshold n).init.pending = 0 := total_eq_zero fun _ => rfl
  simp [hp, jumps, readings, differences]

/-- A step that takes no reading and leaves the counters and the pending jumps alone. -/
theorem Accounted.frame (ha : Accounted threshold h s) {l : Label n} (hl : l.reading? = none)
    (hlast : s'.test.last = s.test.last) (hloops : s'.test.loops = s.test.loops)
    (hwarps : s'.test.warps = s.test.warps) (hworst : s'.test.worst = s.test.worst)
    (hpending : s'.pending = s.pending) : Accounted threshold ((s, l) :: h) s' := by
  refine ⟨?_, ?_, ?_⟩
  · rw [hloops, readings_of_none hl, ha.loops]
  · rw [hlast, readings_of_none hl, ha.last]
  · rw [hpending, jumps_of_none hl, hwarps, hworst]
    exact ha.entered

theorem pending_goto (i : Fin n) (pc : Pc) :
    (s.goto i pc).pending + (s.pc i).pending = s.pending + pc.pending :=
  total_update Pc.pending s.pc i pc

theorem pending_goto_of_eq {i : Fin n} {pc : Pc} (hpc : pc.pending = (s.pc i).pending) :
    (s.goto i pc).pending = s.pending :=
  total_update_of_eq hpc

/-- The first critical section: its difference becomes pending if it is a jump. -/
theorem accounted_measure (ha : Accounted threshold h s) (i : Fin n) (t1 last : Clock)
    (hpc : s.pc i = .measure) (hs : step threshold s (.measure i t1 last) = some s') :
    Accounted threshold ((s, .measure i t1 last) :: h) s' := by
  simp only [step, hpc, Option.some.injEq] at hs
  subst s'
  refine ⟨?_, ?_, ?_⟩
  · simp [readings_measure, ha.loops]
  · simp [readings_measure, lastReading_append]
  · obtain ⟨entered, hsum, hwarps, hworst⟩ := ha.entered
    refine ⟨entered, ?_, hwarps, hworst⟩
    rw [jumps_measure, ← ha.last, ← Multiset.coe_add, ← hsum, add_assoc]
    congr 1
    have hgoto := pending_goto (s := s) i
      (if warp threshold (delta t1 s.test.last) then .account (delta t1 s.test.last) else .test)
    rw [hpc, show Pc.measure.pending = 0 from rfl, add_zero] at hgoto
    refine hgoto.trans ?_
    congr 1
    split <;> rfl

/-- The second critical section enters the pending jump. -/
theorem accounted_account (ha : Accounted threshold h s) (i : Fin n) {d : ℤ}
    (hpc : s.pc i = .account d) (hs : step threshold s (.account i) = some s') :
    Accounted threshold ((s, .account i) :: h) s' := by
  simp only [step, hpc, Option.some.injEq] at hs
  subst s'
  refine ⟨?_, ?_, ?_⟩
  · rw [readings_of_none rfl]
    exact ha.loops
  · rw [readings_of_none rfl]
    exact ha.last
  · obtain ⟨entered, hsum, hwarps, hworst⟩ := ha.entered
    refine ⟨d ::ₘ entered, ?_, by simp [hwarps], ?_⟩
    · have hgoto := pending_goto (s := s) i .test
      rw [hpc, show Pc.test.pending = 0 from rfl, add_zero] at hgoto
      rw [jumps_of_none rfl, ← hsum, ← hgoto, Multiset.cons_add, ← Multiset.add_cons]
      congr 1
      exact ((add_comm _ _).trans (Multiset.singleton_add d _)).symm
    · rw [Multiset.fold_cons_left, ← hworst, min_def_lt]

theorem accounted_step {l : Label n} (ha : Accounted threshold h s)
    (hs : step threshold s l = some s') : Accounted threshold ((s, l) :: h) s' := by
  cases l with
  | readDone i =>
      simp only [step] at hs
      split at hs <;> cases hs
      rename_i hpc
      refine ha.frame rfl rfl rfl rfl rfl (pending_goto_of_eq ?_)
      rw [hpc]
      split <;> rfl
  | measure i t1 last =>
      have hpc : s.pc i = .measure := by
        simp only [step] at hs
        split at hs
        · assumption
        · cases hs
      exact accounted_measure ha i t1 last hpc hs
  | account i =>
      obtain ⟨d, hpc⟩ : ∃ d, s.pc i = .account d := by
        simp only [step] at hs
        split at hs
        · exact ⟨_, ‹_›⟩
        · cases hs
      exact accounted_account ha i hpc hs
  | setDone =>
      simp only [step] at hs
      split at hs <;> cases hs
      exact ha.frame rfl rfl rfl rfl rfl rfl
  | report =>
      simp only [step] at hs
      split at hs
      · split at hs <;> cases hs
        exact ha.frame rfl rfl rfl rfl rfl rfl
      · cases hs

theorem accounted_run (run : (machine threshold n).Run h s) : Accounted threshold h s :=
  run.invariant (I := Accounted threshold) accounted_init
    fun _ _ _ _ _ ha hs => accounted_step ha hs

/-! ## After the join -/

/-- Once `run_test` has reported, every thread has exited and the report is about the
final `warps`. -/
def Joined (s : State n) : Prop :=
  ∀ errs, s.main = .reported errs → (∀ i, s.pc i = .exited) ∧ errs = decide (s.test.warps ≠ 0)

theorem joined_step {l : Label n} (hj : Joined s) (hs : step threshold s l = some s') :
    Joined s' := by
  intro errs hmain
  -- a thread that still moves has not exited, so nothing was reported before
  have hmove : ∀ i, s.pc i ≠ .exited → s.main ≠ .reported errs :=
    fun i hi hr => hi ((hj errs hr).1 i)
  cases l with
  | readDone i =>
      simp only [step] at hs
      split at hs <;> cases hs
      exact absurd hmain (hmove i (by simp [*]))
  | measure i t1 last =>
      simp only [step] at hs
      split at hs <;> cases hs
      exact absurd hmain (hmove i (by simp [*]))
  | account i =>
      simp only [step] at hs
      split at hs <;> cases hs
      exact absurd hmain (hmove i (by simp [*]))
  | setDone =>
      simp only [step] at hs
      split at hs <;> cases hs
      cases hmain
  | report =>
      simp only [step] at hs
      split at hs
      · split at hs <;> cases hs
        refine ⟨‹_›, ?_⟩
        simp only [MainPc.reported.injEq] at hmain
        exact hmain.symm
      · cases hs

theorem joined_run (run : (machine threshold n).Run h s) : Joined s :=
  run.invariant (I := fun _ s => Joined s) (by simp [Joined, machine])
    fun _ _ _ _ _ hj hs => joined_step hj hs

/-- No pending jump is left, so the entered ones are all of them. -/
theorem counters_of_joined (run : (machine threshold n).Run h s)
    (hexit : ∀ i, s.pc i = .exited) :
    s.test.loops = (readings h).length ∧
    s.test.warps = (jumps threshold h).length ∧
    s.test.worst = (jumps threshold h).foldr min 0 := by
  have ha := accounted_run run
  obtain ⟨entered, hsum, hwarps, hworst⟩ := ha.entered
  have hp : s.pending = 0 := total_eq_zero fun i => by rw [hexit i]; rfl
  rw [hp, add_zero] at hsum
  subst entered
  exact ⟨ha.loops, hwarps, hworst⟩

/-! ## Monotone clocks -/

theorem delta_nonneg {t0 t1 : Clock} (hle : t0.toNat ≤ t1.toNat) (hlt : t1.toNat < 2 ^ 63) :
    0 ≤ delta t1 t0 := by
  have hsub : (t1 - t0).toNat = t1.toNat - t0.toNat := by
    rw [BitVec.toNat_sub]
    omega
  unfold delta
  rw [BitVec.toInt_eq_toNat_cond, hsub]
  split <;> omega

theorem differences_nonneg (t0 : Clock) (rs : List (Clock × Clock))
    (hle : (t0 :: rs.flatMap fun r => [r.1, r.2]).Pairwise fun a b => a.toNat ≤ b.toNat)
    (hlt : ∀ r ∈ rs, r.1.toNat < 2 ^ 63) : ∀ d ∈ differences t0 rs, 0 ≤ d := by
  induction rs generalizing t0 with
  | nil => simp [differences]
  | cons r rs ih =>
      simp only [List.flatMap_cons, List.cons_append, List.nil_append, List.pairwise_cons] at hle
      obtain ⟨ht0, -, hrest⟩ := hle
      intro d hd
      rcases List.mem_cons.mp hd with rfl | hd
      · exact delta_nonneg (ht0 r.1 (by simp)) (hlt r (by simp))
      · exact ih r.2 (List.pairwise_cons.mpr hrest) (fun q hq => hlt q (by simp [hq])) d hd

theorem jumps_eq_nil
    (hle : ((readings h).flatMap fun r => [r.1, r.2]).Pairwise fun a b => a.toNat ≤ b.toNat)
    (hlt : ∀ r ∈ readings h, r.1.toNat < 2 ^ 63) : jumps threshold h = [] := by
  rw [jumps, List.filter_eq_nil_iff]
  intro d hd
  have hnonneg := differences_nonneg 0 (readings h)
    (List.pairwise_cons.mpr ⟨by simp, hle⟩) hlt d hd
  simp only [decide_eq_true_eq, not_and]
  omega

/-- When all threads have been joined, `loops` counts the first critical sections,
`warps` the differences that are negative and below the threshold, and `worst` is the
least of these and 0. If the readings under the lock never decrease and stay below
`2^63`, the test reports PASS. -/
theorem runTest_exact_accounting {errs : Bool} (run : (machine threshold n).Run h s)
    (hmain : s.main = .reported errs) :
    s.test.loops = (readings h).length ∧
    s.test.warps = (jumps threshold h).length ∧
    s.test.worst = (jumps threshold h).foldr min 0 ∧
    (((readings h).flatMap fun r => [r.1, r.2]).Pairwise (fun a b => a.toNat ≤ b.toNat) →
      (∀ t ∈ (readings h).flatMap fun r => [r.1, r.2], t.toNat < 2 ^ 63) → errs = false) := by
  obtain ⟨hexit, herrs⟩ := joined_run run errs hmain
  obtain ⟨hloops, hwarps, hworst⟩ := counters_of_joined run hexit
  refine ⟨hloops, hwarps, hworst, fun hle hlt => ?_⟩
  have hnil : jumps threshold h = [] := by
    refine jumps_eq_nil hle fun r hr => hlt r.1 ?_
    exact List.mem_flatMap.mpr ⟨r, hr, by simp⟩
  simp [herrs, hwarps, hnil]

/-- Two jumps are entered in the opposite order of their readings. -/
theorem runTest_exact_accounting_reordered :
    ∃ h s, (machine 0 2).Run h s ∧ s.main = .reported true ∧ s.test.worst = -8 ∧
      s.test.loops = (readings h).length ∧ s.test.warps = (jumps 0 h).length ∧
      s.test.worst = (jumps 0 h).foldr min 0 := by
  let labels : List (Label 2) := [.readDone 0, .measure 0 100 110, .readDone 1,
    .measure 1 105 120, .readDone 0, .measure 0 112 130, .account 0, .setDone, .account 1,
    .readDone 0, .readDone 1, .report]
  have run := (machine 0 2).run_of_replay labels rfl
  have hall := runTest_exact_accounting run rfl
  exact ⟨_, _, run, rfl, rfl, hall.1, hall.2.1, hall.2.2.1⟩

end AutotestClient.TimeTest
