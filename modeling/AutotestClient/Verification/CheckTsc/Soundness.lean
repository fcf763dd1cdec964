import AutotestClient.Verification.CheckTsc.Handshake
import Mathlib.Algebra.Order.Group.Int
import Mathlib.Algebra.Order.Group.Unbundled.Int

/-! # What a PASS of `check_tsc` says about the pairs of the set

Every pair of the loops is in one of four stages: still ahead, under measurement, skipped
because the master could not be bound, or completely measured. -/

namespace AutotestClient.CheckTsc

open Shared

variable {c : Config} {h : History} {s s' : State} {l : Label} {p : ℕ × ℕ}

/-! ## Exchanges of one pair -/

/-- The states in which the master compared an exchange of the pair, newest first. -/
def exchanges (h : History) (p : ℕ × ℕ) : List State :=
  (h.filter fun e => e.2 = .master .compare ∧ e.1.todo.head? = some p).map Prod.fst

/-- The readings of these exchanges, oldest first. -/
def readings (h : History) (p : ℕ × ℕ) : List Sample :=
  ((exchanges h p).map State.sample).reverse

/-- The affinity call of `tsc_delta` failed for this pair. -/
def Refused (h : History) (p : ℕ × ℕ) : Prop :=
  ∃ e ∈ h, e.2 = .master (.affinity false) ∧ e.1.todo.head? = some p

/-- `tsc_delta` ran all its exchanges for the pair with both processes bound to their
CPUs, and the delta is within the threshold. -/
structure Measured (c : Config) (h : History) (p : ℕ × ℕ) : Prop where
  length : (exchanges h p).length = c.iters
  bound : ∀ t ∈ exchanges h p, t.masterBound = some (p.1 : ℤ) ∧ t.slaveBound = some (p.2 : ℤ)
  delta : |(tscDelta (readings h p)).toInt| ≤ c.threshold

theorem exchanges_compare (hhead : s.todo.head? = some p) :
    exchanges ((s, .master .compare) :: h) p = s :: exchanges h p := by
  simp [exchanges, hhead]

theorem exchanges_other (hother : l = .master .compare → s.todo.head? ≠ some p) :
    exchanges ((s, l) :: h) p = exchanges h p := by
  unfold exchanges
  rw [List.filter_cons_of_neg]
  simpa using hother

theorem refused_other (hother : l = .master (.affinity false) → s.todo.head? ≠ some p) :
    Refused ((s, l) :: h) p ↔ Refused h p := by
  simp only [Refused, List.exists_mem_cons_iff]
  exact or_iff_right fun hr => hother hr.1 hr.2

theorem head?_ne {q : ℕ × ℕ} {rest : List (ℕ × ℕ)} (htodo : s.todo = q :: rest) (hne : p ≠ q) :
    s.todo.head? ≠ some p := by
  simpa [htodo] using hne.symm

theorem head?_ne_of_not_mem (hmem : p ∉ s.todo) : s.todo.head? ≠ some p :=
  fun hhead => hmem (List.mem_of_mem_head? hhead)

/-! ## The pair loop -/

/-- The statements of `tsc_delta` after the affinity call and the store to `slave_cpu`. -/
def MasterPc.inLoop : MasterPc → Bool
  | .ready | .waitReady | .readT0 | .done | .waitDone | .readT1 | .compare | .delta => true
  | _ => false

/-- The pairs left, the number of errors and the number of the iteration are in range. -/
structure Looping (c : Config) (s : State) : Prop where
  todo : s.todo <:+ c.pairs
  err : 0 ≤ s.err
  iter : s.masterPc.inLoop = true → s.masterPc ≠ .delta → s.iter < c.iters
  last : s.masterPc = .delta → s.iter = c.iters

theorem verdict_nonneg (delta : BitVec 64) : 0 ≤ c.verdict delta := by
  unfold Config.verdict
  split <;> decide

theorem inLoop_loopPc (i : ℕ) : (c.loopPc i).inLoop = true := by
  unfold Config.loopPc
  split <;> rfl

theorem Looping.atLoopPc {i : ℕ} (htodo : s.todo <:+ c.pairs) (herr : 0 ≤ s.err)
    (hpc : s.masterPc = c.loopPc i) (hiter : s.iter = i) (hi : i ≤ c.iters) : Looping c s := by
  refine ⟨htodo, herr, fun _ hne => ?_, fun heq => ?_⟩
  · unfold Config.loopPc at hpc
    split at hpc
    · omega
    · exact absurd hpc hne
  · unfold Config.loopPc at hpc
    split at hpc
    · cases heq.symm.trans hpc
    · omega

theorem looping_master {l : MasterLabel} (hl : Looping c s) (hr : MasterRule c s l s') :
    Looping c s' := by
  cases hr with
  | affinityFailed hpc htodo =>
      refine ⟨?_, ?_, by simp [MasterPc.inLoop], by simp⟩
      · exact (htodo ▸ List.suffix_cons _ _).trans hl.todo
      · have := verdict_nonneg (c := c) (-1)
        have := hl.err
        simp only
        omega
  | storeCpu hpc htodo => exact .atLoopPc hl.todo hl.err rfl rfl (Nat.zero_le _)
  | compare hpc =>
      have hlt := hl.iter (by simp [hpc, MasterPc.inLoop]) (by simp [hpc])
      exact .atLoopPc hl.todo hl.err rfl rfl hlt
  | delta hpc =>
      refine ⟨?_, ?_, by simp [MasterPc.inLoop], by simp⟩
      · exact (List.tail_suffix _).trans hl.todo
      · have := verdict_nonneg (c := c) s.best.delta
        have := hl.err
        simp only
        omega
  | retest => exact hl
  | ready hpc | sawReady hpc | readT0 t hpc | done hpc | sawDone hpc | readT1 t hpc =>
      have hlt := hl.iter (by simp [hpc, MasterPc.inLoop]) (by simp [hpc])
      exact ⟨hl.todo, hl.err, fun _ _ => hlt, by simp⟩
  | _ => exact ⟨hl.todo, hl.err, by simp [MasterPc.inLoop], by simp⟩

theorem looping_run (run : (machine c).Run h s) : Looping c s := by
  refine run.invariant (I := fun _ s => Looping c s) ?_ ?_
  · exact ⟨List.suffix_rfl, le_rfl, by simp [machine, MasterPc.inLoop], by simp [machine]⟩
  · intro h s l s' _ hl hs
    cases step_iff_rule.mp hs with
    | master hr => exact looping_master hl hr
    | slave hr => cases hr <;> exact ⟨hl.todo, hl.err, hl.iter, hl.last⟩

/-! ## The stage of a pair -/

/-- Where the loops of `check_tsc` are with one pair of theirs. -/
inductive Stage (c : Config) (p : ℕ × ℕ) (h : History) (s : State) : Prop where
  | ahead (hmem : p ∈ s.todo) (hhead : s.todo.head? = some p → s.masterPc.inLoop = false)
      (hnone : exchanges h p = []) (href : ¬ Refused h p)
  | current (hhead : s.todo.head? = some p) (hpc : s.masterPc.inLoop = true)
      (hiter : (exchanges h p).length = s.iter)
      (hbest : s.best = (readings h p).foldl Best.improve .start) (href : ¬ Refused h p)
  | skipped (hmem : p ∉ s.todo) (hnone : exchanges h p = []) (href : Refused h p)
  | complete (hmem : p ∉ s.todo) (hlen : (exchanges h p).length = c.iters)
      (hverdict : s.err = 0 → c.verdict (tscDelta (readings h p)) = 0) (href : ¬ Refused h p)

/-- Steps that neither compare nor fail to bind the master leave the exchanges of every
pair as they are. -/
theorem Stage.frame (hst : Stage c p h s) (hcomp : l ≠ .master .compare)
    (haff : l ≠ .master (.affinity false)) (htodo : s'.todo = s.todo) (hiter : s'.iter = s.iter)
    (hbest : s'.best = s.best) (herr : s'.err = s.err)
    (hpc : s'.masterPc.inLoop = s.masterPc.inLoop) : Stage c p ((s, l) :: h) s' := by
  have hex : exchanges ((s, l) :: h) p = exchanges h p := exchanges_other fun heq => absurd heq hcomp
  have href : Refused ((s, l) :: h) p ↔ Refused h p := refused_other fun heq => absurd heq haff
  cases hst with
  | ahead h1 h2 h3 h4 =>
      exact .ahead (htodo ▸ h1) (by rwa [htodo, hpc]) (hex.trans h3) (href.not.mpr h4)
  | current h1 h2 h3 h4 h5 =>
      refine .current (htodo ▸ h1) (hpc.trans h2) ?_ ?_ (href.not.mpr h5)
      · rw [hex, h3, hiter]
      · rw [hbest, h4, readings, readings, hex]
  | skipped h1 h2 h3 => exact .skipped (htodo ▸ h1) (hex.trans h2) (href.mpr h3)
  | complete h1 h2 h3 h4 =>
      refine .complete (htodo ▸ h1) (by rw [hex, h2]) ?_ (href.not.mpr h4)
      rwa [herr, readings, hex]

/-- The master cannot be bound: the pair at the head is skipped. -/
theorem stage_affinityFailed {q : ℕ × ℕ} {rest : List (ℕ × ℕ)} (hst : Stage c p h s)
    (hlo : Looping c s) (hpc : s.masterPc = .pair) (htodo : s.todo = q :: rest)
    (hq : q ∉ rest) :
    Stage c p ((s, .master (.affinity false)) :: h)
      { s with masterPc := .pair, todo := rest, err := s.err + c.verdict (-1) } := by
  have hex : exchanges ((s, .master (.affinity false)) :: h) p = exchanges h p :=
    exchanges_other (by simp)
  cases hst with
  | ahead h1 h2 h3 h4 =>
      rw [htodo] at h1
      rcases List.mem_cons.mp h1 with rfl | h1
      · exact .skipped hq (hex.trans h3) ⟨_, List.mem_cons_self, rfl, by simp [htodo]⟩
      · have hne : p ≠ q := fun heq => hq (heq ▸ h1)
        exact .ahead h1 (fun _ => rfl) (hex.trans h3)
          ((refused_other fun _ => head?_ne htodo hne).not.mpr h4)
  | current h1 h2 => simp [hpc, MasterPc.inLoop] at h2
  | skipped h1 h2 h3 =>
      obtain ⟨e, he, hfail⟩ := h3
      exact .skipped (fun hmem => h1 (htodo ▸ List.mem_cons_of_mem _ hmem)) (hex.trans h2)
        ⟨e, List.mem_cons_of_mem _ he, hfail⟩
  | complete h1 h2 h3 h4 =>
      refine .complete (fun hmem => h1 (htodo ▸ List.mem_cons_of_mem _ hmem)) (by rw [hex, h2]) ?_
        ((refused_other fun _ => head?_ne_of_not_mem h1).not.mpr h4)
      intro herr
      have hnonneg := verdict_nonneg (c := c) (-1)
      have hzero : s.err = 0 := by
        have := hlo.err
        simp only at herr
        omega
      rw [readings, hex]
      exact h3 hzero

/-- Entering the loop of exchanges for the pair at the head. -/
theorem stage_storeCpu {b : ℕ} (hst : Stage c p h s) (hpc : s.masterPc = .storeCpu) :
    Stage c p ((s, .master .storeCpu) :: h)
      { s with masterPc := c.loopPc 0, slaveCpu := b, iter := 0, best := .start } := by
  have hex : exchanges ((s, .master .storeCpu) :: h) p = exchanges h p := exchanges_other (by simp)
  have href : Refused ((s, .master .storeCpu) :: h) p ↔ Refused h p := refused_other (by simp)
  cases hst with
  | ahead h1 h2 h3 h4 =>
      by_cases hhead : s.todo.head? = some p
      · refine .current hhead (inLoop_loopPc 0) ?_ ?_ (href.not.mpr h4)
        · simp [hex, h3]
        · simp [readings, hex, h3]
      · exact .ahead h1 (fun h => absurd h hhead) (hex.trans h3) (href.not.mpr h4)
  | current h1 h2 => simp [hpc, MasterPc.inLoop] at h2
  | skipped h1 h2 h3 => exact .skipped h1 (hex.trans h2) (href.mpr h3)
  | complete h1 h2 h3 h4 =>
      refine .complete h1 (by rw [hex, h2]) ?_ (href.not.mpr h4)
      rwa [readings, hex]

/-- One more exchange for the pair at the head. -/
theorem stage_compare (hst : Stage c p h s) (hpc : s.masterPc = .compare) :
    Stage c p ((s, .master .compare) :: h)
      { s with
        masterPc := c.loopPc (s.iter + 1), iter := s.iter + 1,
        best := s.best.improve s.sample } := by
  have href : Refused ((s, .master .compare) :: h) p ↔ Refused h p := refused_other (by simp)
  cases hst with
  | ahead h1 h2 h3 h4 =>
      have hhead : s.todo.head? ≠ some p := by
        intro hhead
        simpa [hpc, MasterPc.inLoop] using h2 hhead
      exact .ahead h1 (fun h => absurd h hhead) ((exchanges_other fun _ => hhead).trans h3)
        (href.not.mpr h4)
  | current h1 h2 h3 h4 h5 =>
      refine .current h1 (inLoop_loopPc _) ?_ ?_ (href.not.mpr h5)
      · simp [exchanges_compare h1, h3]
      · simp [readings, exchanges_compare h1, h4]
  | skipped h1 h2 h3 =>
      have hhead := head?_ne_of_not_mem h1
      exact .skipped h1 ((exchanges_other fun _ => hhead).trans h2) (href.mpr h3)
  | complete h1 h2 h3 h4 =>
      have hex := exchanges_other (h := h) (l := .master .compare) fun _ => head?_ne_of_not_mem h1
      refine .complete h1 (by rw [hex, h2]) ?_ (href.not.mpr h4)
      rwa [readings, hex]

/-- The delta of the pair at the head is compared with the threshold. -/
theorem stage_delta {q : ℕ × ℕ} {rest : List (ℕ × ℕ)} (hst : Stage c p h s) (hlo : Looping c s)
    (hpc : s.masterPc = .delta) (htodo : s.todo = q :: rest) (hq : q ∉ rest) :
    Stage c p ((s, .master .delta) :: h)
      { s with
        masterPc := .pair, todo := s.todo.tail, err := s.err + c.verdict s.best.delta } := by
  have hex : exchanges ((s, .master .delta) :: h) p = exchanges h p := exchanges_other (by simp)
  have href : Refused ((s, .master .delta) :: h) p ↔ Refused h p := refused_other (by simp)
  have htail : s.todo.tail = rest := by rw [htodo]; rfl
  have hnonneg := verdict_nonneg (c := c) s.best.delta
  have herr := hlo.err
  cases hst with
  | ahead h1 h2 h3 h4 =>
      have hne : p ≠ q := by
        rintro rfl
        simpa [hpc, MasterPc.inLoop] using h2 (by simp [htodo])
      have hmem : p ∈ rest := by simpa [htodo, hne] using h1
      exact .ahead (htail ▸ hmem) (fun _ => rfl) (hex.trans h3) (href.not.mpr h4)
  | current h1 h2 h3 h4 h5 =>
      obtain rfl : q = p := by simpa [htodo] using h1
      refine .complete (htail ▸ hq) (by rw [hex, h3, hlo.last hpc]) ?_ (href.not.mpr h5)
      intro hzero
      have hbest : s.best.delta = tscDelta (readings h q) := by rw [h4, tscDelta]
      rw [readings, hex, ← readings, ← hbest]
      simp only at hzero
      omega
  | skipped h1 h2 h3 =>
      exact .skipped (fun hmem => h1 (List.mem_of_mem_tail hmem)) (hex.trans h2) (href.mpr h3)
  | complete h1 h2 h3 h4 =>
      refine .complete (fun hmem => h1 (List.mem_of_mem_tail hmem)) (by rw [hex, h2]) ?_
        (href.not.mpr h4)
      intro hzero
      rw [readings, hex]
      refine h3 ?_
      simp only at hzero
      omega

theorem stage_master {l : MasterLabel} (hnodup : c.pairs.Nodup) (hc : Coupled s)
    (hlo : Looping c s) (hst : Stage c p h s) (hr : MasterRule c s l s') :
    Stage c p ((s, .master l) :: h) s' := by
  have hdistinct : s.todo.Nodup := hnodup.sublist hlo.todo.sublist
  cases hr with
  | affinityFailed hpc htodo =>
      rw [htodo] at hdistinct
      exact stage_affinityFailed hst hlo hpc htodo (List.nodup_cons.mp hdistinct).1
  | storeCpu hpc htodo => exact stage_storeCpu hst hpc
  | compare hpc => exact stage_compare hst hpc
  | delta hpc =>
      simp only [Coupled, hpc] at hc
      obtain ⟨⟨a, b, ⟨rest, htodo⟩, -⟩, -⟩ := hc
      have hq : (a, b) ∉ rest := by
        rw [htodo] at hdistinct
        exact (List.nodup_cons.mp hdistinct).1
      exact stage_delta hst hlo hpc htodo hq
  | retest hwait => exact hst.frame (by simp) (by simp) rfl rfl rfl rfl rfl
  | create hpc | createFailed hpc | affinity hpc | ready hpc | sawReady hpc | readT0 t hpc
  | done hpc | sawDone hpc | readT1 t hpc | storeStop hpc | stopReady hpc | join hpc =>
      exact hst.frame (by simp) (by simp) rfl rfl rfl rfl (by simp [hpc, MasterPc.inLoop])

theorem stage_run (hnodup : c.pairs.Nodup) (hp : p ∈ c.pairs) (run : (machine c).Run h s) :
    Stage c p h s := by
  refine run.invariant (I := Stage c p) ?_ ?_
  · exact .ahead hp (fun _ => rfl) rfl (by simp [Refused])
  · intro h s l s' run hst hs
    cases step_iff_rule.mp hs with
    | master hr => exact stage_master hnodup (coupled_run run).1 (looping_run run) hst hr
    | slave hr => cases hr <;> exact hst.frame (by simp) (by simp) rfl rfl rfl rfl rfl

/-! ## The verdict -/

/-- `llabs` computes the absolute value of every delta but one. -/
theorem verdict_eq_zero_iff {delta : BitVec 64} (hv : c.verdict delta = 0)
    (hth : c.threshold < 2 ^ 63) : |delta.toInt| ≤ c.threshold ↔ delta ≠ BitVec.intMin 64 := by
  constructor
  · rintro hle rfl
    rw [show |(BitVec.intMin 64).toInt| = 2 ^ 63 by decide] at hle
    omega
  · intro hne
    have habs : delta.abs.toInt = |delta.toInt| := by
      rw [BitVec.toInt_abs_eq_natAbs_of_ne_intMin hne, Int.natCast_natAbs]
    rw [Config.verdict, habs] at hv
    split at hv <;> omega

theorem returned_zero (run : (machine c).Run h s) (hpass : s.masterPc = .returned 0) :
    s.err = 0 ∧ s.todo = [] := by
  have hc := (coupled_run run).1
  simp only [Coupled, hpass] at hc
  rcases hc with ⟨herr, -⟩ | ⟨herr, -, -, htodo⟩
  · cases herr
  · exact ⟨herr.symm, htodo⟩

theorem mem_exchanges (run : (machine c).Run h s) {t : State} (ht : t ∈ exchanges h p) :
    ∃ older, (machine c).Run older t ∧ t.masterPc = .compare ∧ t.todo.head? = some p := by
  simp only [exchanges, List.mem_map, List.mem_filter, decide_eq_true_eq] at ht
  obtain ⟨⟨t, l⟩, ⟨hmem, rfl, hhead⟩, rfl⟩ := ht
  obtain ⟨newer, older, t', rfl, hrun, hs⟩ := run.of_mem hmem
  exact ⟨older, hrun, (ifMaster_eq_some.mp hs).1, hhead⟩

/-- At every comparison both processes run on the CPUs of the pair at the head. -/
theorem bound_of_exchange (run : (machine c).Run h s) {t : State} (ht : t ∈ exchanges h p) :
    t.masterBound = some (p.1 : ℤ) ∧ t.slaveBound = some (p.2 : ℤ) := by
  obtain ⟨older, hrun, hpc, hhead⟩ := mem_exchanges run ht
  have hc := (coupled_run hrun).1
  simp only [Coupled, hpc] at hc
  obtain ⟨⟨a, b, ⟨rest, htodo⟩, hmaster, hcpu⟩, -, hb⟩ := hc
  obtain rfl : (a, b) = p := by simpa [htodo] using hhead
  exact ⟨hmaster, by rw [hb.slaveBound, hcpu]⟩

/-- Only pairs of the loops are compared. -/
theorem exchanges_of_not_mem (run : (machine c).Run h s) (hp : p ∉ c.pairs) :
    exchanges h p = [] := by
  refine List.eq_nil_iff_forall_not_mem.mpr fun t ht => ?_
  obtain ⟨older, hrun, -, hhead⟩ := mem_exchanges run ht
  exact hp ((looping_run hrun).todo.subset (List.mem_of_mem_head? hhead))

/-- After a return of 0 a pair of the loops is measured exactly if the master could be
bound for it and its delta is not the one value without an absolute value. -/
theorem measured_iff (hnodup : c.pairs.Nodup) (hiters : 0 < c.iters)
    (hth : c.threshold < 2 ^ 63) (run : (machine c).Run h s) (hpass : s.masterPc = .returned 0)
    (hp : p ∈ c.pairs) :
    Measured c h p ↔ ¬ Refused h p ∧ tscDelta (readings h p) ≠ BitVec.intMin 64 := by
  obtain ⟨herr, htodo⟩ := returned_zero run hpass
  cases stage_run hnodup hp run with
  | ahead hmem => simp [htodo] at hmem
  | current hhead => simp [htodo] at hhead
  | skipped _ hnone href =>
      refine iff_of_false (fun hm => ?_) fun h => h.1 href
      have := hm.length
      simp [hnone] at this
      omega
  | complete _ hlen hverdict href =>
      have hdelta := verdict_eq_zero_iff (hverdict herr) hth
      exact ⟨fun hm => ⟨href, hdelta.mp hm.delta⟩,
        fun h => ⟨hlen, fun t ht => bound_of_exchange run ht, hdelta.mpr h.2⟩⟩

/-- Only pairs of the loops are refused. -/
theorem refused_of_affinityFailed (run : (machine c).Run h s) {e : State × Label} (he : e ∈ h)
    (hfail : e.2 = .master (.affinity false)) : ∃ p ∈ c.pairs, Refused h p := by
  obtain ⟨t, l⟩ := e
  obtain rfl : l = _ := hfail
  obtain ⟨newer, older, t', hh, hrun, hs⟩ := run.of_mem he
  cases step_iff_rule.mp hs with
  | master hr =>
      cases hr with
      | @affinityFailed a b rest hpc htodo =>
          refine ⟨(a, b), ?_, _, he, rfl, by simp [htodo]⟩
          exact (looping_run hrun).todo.subset (by simp [htodo])

theorem mem_cpuPairs {cpus : Finset ℕ} {a b : ℕ} :
    (a, b) ∈ cpuPairs cpus ↔ (a < maxCpus ∧ b < maxCpus) ∧ a ∈ cpus ∧ b ∈ cpus ∧ a ≠ b := by
  simp [cpuPairs]

theorem nodup_cpuPairs (cpus : Finset ℕ) : (cpuPairs cpus).Nodup :=
  (List.nodup_range.product List.nodup_range).filter _

/-- When `check_tsc` returns 0, every ordered pair of distinct CPUs of the set was
measured and found within the threshold exactly if these CPUs are all below `MAX_CPUS`,
no affinity call of the master failed, and no delta is the minimal 64-bit integer. -/
theorem checkTsc_pass_iff {cpus : Finset ℕ} {threshold : ℤ} (hth : threshold < 2 ^ 63)
    (run : (machine (checkTsc cpus threshold)).Run h s) (hpass : s.masterPc = .returned 0) :
    (∀ a ∈ cpus, ∀ b ∈ cpus, a ≠ b → Measured (checkTsc cpus threshold) h (a, b)) ↔
      (∀ a ∈ cpus, ∀ b ∈ cpus, a ≠ b → a < maxCpus ∧ b < maxCpus) ∧
        (∀ e ∈ h, e.2 ≠ .master (.affinity false)) ∧
        ∀ p ∈ cpuPairs cpus, tscDelta (readings h p) ≠ BitVec.intMin 64 := by
  have hpair (p : ℕ × ℕ) (hp : p ∈ cpuPairs cpus) :=
    measured_iff (nodup_cpuPairs cpus) (by decide : 0 < numIters) hth run hpass hp
  constructor
  · intro hall
    have hmeasured (p : ℕ × ℕ) (hp : p ∈ cpuPairs cpus) :
        Measured (checkTsc cpus threshold) h p := by
      obtain ⟨-, ha, hb, hne⟩ := mem_cpuPairs.mp hp
      exact hall p.1 ha p.2 hb hne
    refine ⟨?_, ?_, fun p hp => ((hpair p hp).mp (hmeasured p hp)).2⟩
    · intro a ha b hb hne
      by_contra hbound
      have hp : (a, b) ∉ cpuPairs cpus := fun hp => hbound (mem_cpuPairs.mp hp).1
      have hlen := (hall a ha b hb hne).length
      rw [exchanges_of_not_mem run hp] at hlen
      cases hlen
    · intro e he hfail
      obtain ⟨p, hp, href⟩ := refused_of_affinityFailed run he hfail
      exact ((hpair p hp).mp (hmeasured p hp)).1 href
  · rintro ⟨hbound, haff, hdelta⟩ a ha b hb hne
    have hp : (a, b) ∈ cpuPairs cpus := mem_cpuPairs.mpr ⟨hbound a ha b hb hne, ha, hb, hne⟩
    refine (hpair _ hp).mpr ⟨?_, hdelta _ hp⟩
    rintro ⟨e, he, hfail, -⟩
    exact haff e he hfail

/-- One exchange in which the slave is told its CPU anew (`first`) or is already there. -/
def exchangeLabels (first : Bool) (t0 tm t1 : Tsc) : List Label :=
  [.master .ready, .slave .sawReady, .slave .testStop, .slave .testCpu] ++
    (if first then [.slave (.affinity true), .slave .setCurrent] else []) ++
    [.slave .ready, .master .sawReady, .master (.readT0 t0), .master .done, .slave .sawDone,
      .slave (.write tm), .slave .done, .master .sawDone, .master (.readT1 t1), .master .compare]

/-- The call of `tsc_delta` for one pair, ten exchanges with the same readings. -/
def pairLabels (t0 tm t1 : Tsc) : List Label :=
  [.master (.affinity true), .master .storeCpu] ++ exchangeLabels true t0 tm t1 ++
    (List.replicate 9 (exchangeLabels false t0 tm t1)).flatten ++ [.master .delta]

def stopLabels : List Label :=
  [.master .storeStop, .master .stopReady, .slave .sawReady, .slave .testStop, .master .join]

/-- CPUs 0 and 1 with a skew of 50 cycles. -/
theorem checkTsc_pass_two :
    ∃ h s, (machine (checkTsc {0, 1} 500)).Run h s ∧ s.masterPc = .returned 0 ∧
      ∀ a ∈ ({0, 1} : Finset ℕ), ∀ b ∈ ({0, 1} : Finset ℕ), a ≠ b →
        Measured (checkTsc {0, 1} 500) h (a, b) := by
  let labels := [.master (.create true)] ++ pairLabels 100 200 200 ++ pairLabels 300 300 400 ++
    stopLabels
  have hcheck : ((machine (checkTsc {0, 1} 500)).replay labels).any (fun r =>
      decide (r.2.masterPc = .returned 0 ∧ (∀ e ∈ r.1, e.2 ≠ .master (.affinity false)) ∧
        ∀ p ∈ cpuPairs {0, 1}, tscDelta (readings r.1 p) ≠ BitVec.intMin 64)) = true := by
    decide +kernel
  obtain ⟨⟨h, s⟩, hr, hprop⟩ := (Option.any_eq_true _ _).mp hcheck
  obtain ⟨hpass, haff, hdelta⟩ := of_decide_eq_true hprop
  have run := Machine.run_of_replay labels hr
  exact ⟨h, s, run, hpass, (checkTsc_pass_iff (by decide) run hpass).mpr
    ⟨by decide, haff, hdelta⟩⟩

/-- The set with CPUs 0 and 40 has two pairs, and `check_tsc` returns 0 without looking
at either. -/
theorem checkTsc_pass_fails :
    (∀ a ∈ ({0, 40} : Finset ℕ), a < cpuSetSize) ∧
      ∃ h s, (machine (checkTsc {0, 40} 500)).Run h s ∧ s.masterPc = .returned 0 ∧
        exchanges h (0, 40) = [] ∧ ¬ Measured (checkTsc {0, 40} 500) h (0, 40) := by
  have hc : checkTsc {0, 40} 500 = ⟨[], 10, 500⟩ := by
    rw [checkTsc, show cpuPairs {0, 40} = [] by decide +kernel, numIters]
  rw [hc]
  have run := (machine ⟨[], 10, 500⟩).run_of_replay (.master (.create true) :: stopLabels) rfl
  refine ⟨by simp [cpuSetSize], _, _, run, rfl, rfl, fun hm => ?_⟩
  cases hm.length

end AutotestClient.CheckTsc
