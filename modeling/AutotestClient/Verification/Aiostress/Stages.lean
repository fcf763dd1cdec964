import AutotestClient.Model.Aiostress.Stages
import AutotestClient.Shared.Threads
import Mathlib.Tactic.Common

/-! # The aio-stress threads move from stage to stage together

Each stage has a barrier at its start and one at its end. `b` counts the barriers that all
threads have reached; a thread has reached that many or one more. -/

namespace AutotestClient.Aiostress.Stages

open Shared

variable {n : ℕ} {stonewall : Bool} {more : Fin n → ℕ → Bool} {s s' : State n} {l : Label n}
  {h : List (State n × Label n)}

/-! ## Barriers reached and passed -/

/-- The barriers that a thread has reached. -/
def Thread.reached (t : Thread) : ℕ :=
  match t.pc with
  | .restart => 2 * t.iteration
  | .starting _ | .running => 2 * t.iteration + 1
  | _ => 2 * t.iteration + 2

/-- The barriers that a thread has been let through. -/
def Thread.passed (t : Thread) : ℕ :=
  match t.pc with
  | .restart | .starting _ => 2 * t.iteration
  | .running | .ending _ => 2 * t.iteration + 1
  | _ => 2 * t.iteration + 2

/-- A thread that sleeps in `pthread_cond_wait` and was not woken. -/
def Thread.asleep (t : Thread) : Bool :=
  decide (t.pc = .starting false ∨ t.pc = .ending false)

@[simp] theorem broadcast_reached (t : Thread) : t.broadcast.reached = t.reached := by
  unfold Thread.broadcast
  split <;> simp [Thread.reached, *]

@[simp] theorem broadcast_passed (t : Thread) : t.broadcast.passed = t.passed := by
  unfold Thread.broadcast
  split <;> simp [Thread.passed, *]

theorem broadcast_not_asleep (t : Thread) : t.broadcast.asleep = false := by
  unfold Thread.broadcast
  split <;> simp_all [Thread.asleep]

/-- The threads that are ahead of the barrier `b`. -/
def ahead (b : ℕ) (t : Thread) : Bool := decide (t.reached = b + 1)

/-- The two counters, and where the threads are, when all have reached `b` barriers. -/
structure Lockstep (s : State n) (b : ℕ) : Prop where
  behind : ∀ i, b ≤ (s.threads i).reached
  ahead : ∀ i, (s.threads i).reached ≤ b + 1
  passed : ∀ i, (s.threads i).passed ≤ b
  some_behind : ∃ i, (s.threads i).reached = b
  starting : b % 2 = 0 → s.starting = count (Stages.ahead b) s.threads
  ending : b % 2 = 1 → s.starting = n ∧ s.ending = count (Stages.ahead b) s.threads
  ended : b % 2 = 0 → b ≠ 0 → s.ending = n
  asleep : ∀ i, (s.threads i).asleep → (s.threads i).passed = b

theorem lockstep_init (hn : 0 < n) : Lockstep (machine stonewall more).init 0 := by
  have hreached : ∀ i, ((machine stonewall more).init.threads i).reached = 0 := fun _ => rfl
  constructor
  · simp
  · simp [hreached]
  · exact fun _ => le_rfl
  · exact ⟨⟨0, hn⟩, rfl⟩
  · intro _
    refine (total_eq_zero fun i => ?_).symm
    simp [Stages.ahead, hreached]
  · simp
  · simp
  · exact fun _ _ => rfl

/-- With a thread behind, not all are ahead. -/
theorem Lockstep.count_lt {b : ℕ} (hs : Lockstep s b) : count (Stages.ahead b) s.threads < n := by
  have hle := count_le_card (Stages.ahead b) s.threads
  rw [Fintype.card_fin] at hle
  refine lt_of_le_of_ne hle fun heq => ?_
  obtain ⟨i, hi⟩ := hs.some_behind
  have hall := count_eq_card_iff.mp (heq.trans (Fintype.card_fin n).symm) i
  simp only [Stages.ahead, decide_eq_true_eq] at hall
  omega

/-- A move of one thread that reaches no barrier. -/
theorem Lockstep.set {b : ℕ} (hs : Lockstep s b) {i : Fin n} {t : Thread}
    (hreached : t.reached = (s.threads i).reached) (hpassed : t.passed ≤ b)
    (hasleep : t.asleep → t.passed = b) : Lockstep (s.set i t) b := by
  have hthreads : ∀ (P : Thread → Prop), (∀ j, P (s.threads j)) → P t →
      ∀ j, P ((s.set i t).threads j) := by
    intro P hall ht j
    by_cases hj : j = i
    · subst j
      simpa [State.set] using ht
    · simpa [State.set, hj] using hall j
  have hcount : count (Stages.ahead b) (s.set i t).threads = count (Stages.ahead b) s.threads :=
    count_update_of_eq (by simp only [Stages.ahead, hreached])
  constructor
  · exact hthreads (b ≤ ·.reached) hs.behind (hreached ▸ hs.behind i)
  · exact hthreads (·.reached ≤ b + 1) hs.ahead (hreached ▸ hs.ahead i)
  · exact hthreads (·.passed ≤ b) hs.passed hpassed
  · obtain ⟨j, hj⟩ := hs.some_behind
    refine ⟨j, ?_⟩
    by_cases hji : j = i
    · subst j
      simpa [State.set, hreached] using hj
    · simpa [State.set, hji] using hj
  · exact fun hb => (hs.starting hb).trans hcount.symm
  · exact fun hb => ⟨(hs.ending hb).1, (hs.ending hb).2.trans hcount.symm⟩
  · exact hs.ended
  · exact hthreads (fun t => t.asleep → t.passed = b) hs.asleep hasleep

/-! ## Reaching a barrier -/

theorem count_reach {b : ℕ} {i : Fin n} {t : Thread} {threads : Fin n → Thread}
    (hi : (threads i).reached = b) (ht : t.reached = b + 1) :
    count (ahead b) (Function.update threads i t) = count (ahead b) threads + 1 := by
  have hcount := count_update (ahead b) threads i t
  simpa [ahead, hi, ht] using hcount

/-- A thread reaches the next barrier, but not as the last one. -/
theorem Lockstep.reach {b starting ending : ℕ} (hs : Lockstep s b) {i : Fin n} {t : Thread}
    (hi : (s.threads i).reached = b) (ht : t.reached = b + 1) (hpassed : t.passed = b)
    (hnot : count (Stages.ahead b) s.threads + 1 ≠ n)
    (hstarting : b % 2 = 0 → starting = s.starting + 1 ∧ ending = s.ending)
    (hending : b % 2 = 1 → starting = s.starting ∧ ending = s.ending + 1) :
    Lockstep ⟨starting, ending, Function.update s.threads i t⟩ b := by
  have hlt := hs.count_lt
  have hcount : count (Stages.ahead b) (Function.update s.threads i t) =
      count (Stages.ahead b) s.threads + 1 := count_reach hi ht
  have hthreads : ∀ (P : Thread → Prop), (∀ j, P (s.threads j)) → P t →
      ∀ j, P (Function.update s.threads i t j) := by
    intro P hall ht j
    by_cases hj : j = i
    · subst j
      simpa using ht
    · simpa [hj] using hall j
  have hahead := hthreads (·.reached ≤ b + 1) hs.ahead ht.le
  have hbehind := hthreads (b ≤ ·.reached) hs.behind (by omega)
  constructor
  · exact hbehind
  · exact hahead
  · exact hthreads (·.passed ≤ b) hs.passed hpassed.le
  · by_contra hnone
    have hall : count (Stages.ahead b) (Function.update s.threads i t) = Fintype.card (Fin n) := by
      refine count_eq_card_iff.mpr fun j => ?_
      have hne : (Function.update s.threads i t j).reached ≠ b := fun h => hnone ⟨j, h⟩
      have hle := hahead j
      have hge := hbehind j
      simp only [Stages.ahead, decide_eq_true_eq]
      omega
    rw [hcount, Fintype.card_fin] at hall
    exact hnot hall
  · intro hb
    rw [(hstarting hb).1, hs.starting hb, hcount]
  · intro hb
    rw [(hending hb).1, (hending hb).2, hcount, (hs.ending hb).2]
    exact ⟨(hs.ending hb).1, rfl⟩
  · intro hb h0
    rw [(hstarting hb).2, hs.ended hb h0]
  · exact hthreads (fun t => t.asleep → t.passed = b) hs.asleep fun _ => hpassed

/-- The last thread to reach a barrier opens it for everyone. -/
theorem Lockstep.reach_last {b starting ending : ℕ} (hs : Lockstep s b) {i : Fin n} {t : Thread}
    (hi : (s.threads i).reached = b) (ht : t.reached = b + 1) (hpassed : t.passed = b + 1)
    (hawake : t.asleep = false) (hall : count (Stages.ahead b) s.threads + 1 = n)
    (hstarting : b % 2 = 0 → starting = n ∧ ending = 0)
    (hending : b % 2 = 1 → starting = 0 ∧ ending = n) :
    Lockstep ⟨starting, ending, Function.update (fun j => (s.threads j).broadcast) i t⟩ (b + 1) := by
  have hcount : count (Stages.ahead b) (Function.update s.threads i t) = Fintype.card (Fin n) := by
    rw [count_reach hi ht, hall, Fintype.card_fin]
  have hreached : ∀ j,
      (Function.update (fun j => (s.threads j).broadcast) i t j).reached = b + 1 := by
    intro j
    have hj := count_eq_card_iff.mp hcount j
    simp only [Stages.ahead, decide_eq_true_eq] at hj
    by_cases hji : j = i
    · subst j
      simpa using ht
    · simpa [hji] using hj
  have hnone : count (Stages.ahead (b + 1))
      (Function.update (fun j => (s.threads j).broadcast) i t) = 0 := by
    refine total_eq_zero fun j => ?_
    simp [Stages.ahead, hreached j]
  constructor
  · exact fun j => (hreached j).ge
  · exact fun j => (hreached j).le.trans (Nat.le_succ _)
  · intro j
    by_cases hji : j = i
    · subst j
      simp [hpassed]
    · simpa [hji] using (hs.passed j).trans (Nat.le_succ b)
  · exact ⟨i, hreached i⟩
  · intro hb
    rw [hnone]
    exact (hending (by omega)).1
  · intro hb
    rw [hnone]
    exact hstarting (by omega)
  · intro hb _
    exact (hending (by omega)).2
  · intro j hj
    by_cases hji : j = i
    · subst j
      simp [hawake] at hj
    · simp [hji, broadcast_not_asleep] at hj

/-! ## The steps -/

/-- A thread at the start of a stage is behind. -/
theorem Lockstep.at_restart {b : ℕ} (hs : Lockstep s b) {i : Fin n}
    (hpc : (s.threads i).pc = .restart) : b = 2 * (s.threads i).iteration := by
  have hpassed := hs.passed i
  have hreached := hs.behind i
  simp only [Thread.passed, Thread.reached, hpc] at hpassed hreached
  omega

theorem Lockstep.at_running {b : ℕ} (hs : Lockstep s b) {i : Fin n}
    (hpc : (s.threads i).pc = .running) : b = 2 * (s.threads i).iteration + 1 := by
  have hpassed := hs.passed i
  have hreached := hs.behind i
  simp only [Thread.passed, Thread.reached, hpc] at hpassed hreached
  omega

theorem lockstep_start {b : ℕ} (hs : Lockstep s b) {i : Fin n}
    (hpc : (s.threads i).pc = .restart) : ∃ b', Lockstep (s.start i) b' := by
  have hb := hs.at_restart hpc
  have heven : b % 2 = 0 := by omega
  have hreached : (s.threads i).reached = b := by simp [Thread.reached, hpc, hb]
  have hstarting := hs.starting heven
  unfold State.start
  by_cases hlast : s.starting + 1 = n
  · simp only [hlast, if_true]
    have hiter : (s.threads i).broadcast.iteration = (s.threads i).iteration := by
      simp [Thread.broadcast, hpc]
    refine ⟨b + 1, hs.reach_last hreached ?_ ?_ rfl (by omega) (fun _ => ⟨rfl, rfl⟩) (by omega)⟩
    · simp [Thread.reached, State.broadcast, hiter, hb]
    · simp [Thread.passed, State.broadcast, hiter, hb]
  · simp only [hlast, if_false]
    refine ⟨b, hs.reach hreached ?_ ?_ (by omega) (fun _ => ⟨rfl, rfl⟩) (by omega)⟩
    · simp [Thread.reached, hb]
    · simp [Thread.passed, hb]

theorem lockstep_finish {b : ℕ} (hs : Lockstep s b) {i : Fin n}
    (hpc : (s.threads i).pc = .running) : ∃ b', Lockstep (s.finish i) b' := by
  have hb := hs.at_running hpc
  have hodd : b % 2 = 1 := by omega
  have hreached : (s.threads i).reached = b := by simp [Thread.reached, hpc, hb]
  have hending := (hs.ending hodd).2
  unfold State.finish
  by_cases hlast : s.ending + 1 = n
  · simp only [hlast, if_true]
    have hiter : (s.threads i).broadcast.iteration = (s.threads i).iteration := by
      simp [Thread.broadcast, hpc]
    refine ⟨b + 1, hs.reach_last hreached ?_ ?_ rfl (by omega) (by omega) (fun _ => ⟨rfl, rfl⟩)⟩
    · simp [Thread.reached, State.broadcast, hiter, hb]
    · simp [Thread.passed, State.broadcast, hiter, hb]
  · simp only [hlast, if_false]
    refine ⟨b, hs.reach hreached ?_ ?_ (by omega) (by omega) (fun _ => ⟨rfl, rfl⟩)⟩
    · simp [Thread.reached, hb]
    · simp [Thread.passed, hb]

/-- `threads_starting == num_threads` is true while a stage runs, and only then. -/
theorem Lockstep.starting_eq_iff {b : ℕ} (hs : Lockstep s b) : s.starting = n ↔ b % 2 = 1 := by
  have hlt := hs.count_lt
  rcases Nat.mod_two_eq_zero_or_one b with heven | hodd
  · have hstarting := hs.starting heven
    omega
  · simp [hodd, (hs.ending hodd).1]

theorem Lockstep.ending_eq_iff {b : ℕ} (hs : Lockstep s b) (h0 : b ≠ 0) :
    s.ending = n ↔ b % 2 = 0 := by
  have hlt := hs.count_lt
  rcases Nat.mod_two_eq_zero_or_one b with heven | hodd
  · simp [heven, hs.ended heven h0]
  · have hending := (hs.ending hodd).2
    omega

theorem lockstep_wakeup_starting {b : ℕ} (hs : Lockstep s b) {i : Fin n}
    (hpc : (s.threads i).pc = .starting true) :
    Lockstep (s.goto i (if s.starting = n then .running else .starting false)) b := by
  have hbehind := hs.behind i
  have hpassed := hs.passed i
  have hiff := hs.starting_eq_iff
  simp only [Thread.reached, Thread.passed, hpc] at hbehind hpassed
  by_cases hn : s.starting = n
  · simp only [hn, if_true]
    have hodd := hiff.mp hn
    refine hs.set (by simp [Thread.reached, hpc]) ?_ (by simp [Thread.asleep])
    simp only [Thread.passed]
    omega
  · simp only [hn, if_false]
    have heven : b % 2 ≠ 1 := fun h => hn (hiff.mpr h)
    refine hs.set (by simp [Thread.reached, hpc]) ?_ fun _ => ?_
    · simp only [Thread.passed]
      omega
    · simp only [Thread.passed]
      omega

theorem lockstep_wakeup_ending {b : ℕ} (hs : Lockstep s b) {i : Fin n}
    (hpc : (s.threads i).pc = .ending true) :
    Lockstep (s.goto i (if s.ending = n then .decide else .ending false)) b := by
  have hbehind := hs.behind i
  have hpassed := hs.passed i
  simp only [Thread.reached, Thread.passed, hpc] at hbehind hpassed
  have hiff := hs.ending_eq_iff (by omega)
  by_cases hn : s.ending = n
  · simp only [hn, if_true]
    have heven := hiff.mp hn
    refine hs.set (by simp [Thread.reached, hpc]) ?_ (by simp [Thread.asleep])
    simp only [Thread.passed]
    omega
  · simp only [hn, if_false]
    have hodd : b % 2 ≠ 0 := fun h => hn (hiff.mpr h)
    refine hs.set (by simp [Thread.reached, hpc]) ?_ fun _ => ?_
    · simp only [Thread.passed]
      omega
    · simp only [Thread.passed]
      omega

theorem lockstep_step {b : ℕ} (hs : Lockstep s b) (hstep : step stonewall more s l = some s') :
    ∃ b', Lockstep s' b' := by
  cases l with
  | start i =>
      simp only [step] at hstep
      split at hstep <;> cases hstep
      exact lockstep_start hs ‹_›
  | wakeup i =>
      simp only [step] at hstep
      split at hstep <;> cases hstep
      · exact ⟨b, lockstep_wakeup_starting hs ‹_›⟩
      · exact ⟨b, lockstep_wakeup_ending hs ‹_›⟩
  | spurious i =>
      simp only [step] at hstep
      split at hstep <;> cases hstep
      · rename_i hpc
        refine ⟨b, hs.set (by simp [Thread.reached, hpc]) ?_ (by simp [Thread.asleep])⟩
        simpa [Thread.passed, hpc] using hs.passed i
      · rename_i hpc
        refine ⟨b, hs.set (by simp [Thread.reached, hpc]) ?_ (by simp [Thread.asleep])⟩
        simpa [Thread.passed, hpc] using hs.passed i
  | cut i =>
      simp only [step] at hstep
      split at hstep
      · split at hstep <;> cases hstep
        exact ⟨b, hs⟩
      · cases hstep
  | finish i =>
      simp only [step] at hstep
      split at hstep <;> cases hstep
      exact lockstep_finish hs ‹_›
  | decide i =>
      simp only [step] at hstep
      split at hstep
      · rename_i hpc
        have hpassed := hs.passed i
        simp only [Thread.passed, hpc] at hpassed
        split at hstep <;> cases hstep
        · refine ⟨b, hs.set ?_ ?_ (by simp [Thread.asleep])⟩
          · simp only [Thread.reached, hpc]
            omega
          · simp only [Thread.passed]
            omega
        · refine ⟨b, hs.set (by simp [Thread.reached, hpc]) ?_ (by simp [Thread.asleep])⟩
          simpa [Thread.passed] using hpassed
      · cases hstep

theorem lockstep_run (hn : 0 < n) (run : (machine stonewall more).Run h s) :
    ∃ b, Lockstep s b :=
  run.invariant (I := fun _ s => ∃ b, Lockstep s b) ⟨0, lockstep_init hn⟩
    fun _ _ _ _ _ ⟨_, hs⟩ hstep => lockstep_step hs hstep

/-! ## All threads are in one stage -/

/-- Between the two barriers of a stage. -/
def Pc.inStage : Pc → Bool
  | .starting _ | .running | .ending _ => true
  | _ => false

/-- While a thread is doing its part of a stage, no thread is in another stage. -/
theorem Lockstep.same_stage {b : ℕ} (hs : Lockstep s b) {i : Fin n}
    (hpc : (s.threads i).pc = .running) (j : Fin n) :
    (s.threads j).iteration = (s.threads i).iteration ∧ (s.threads j).pc.inStage := by
  have hb := hs.at_running hpc
  have hbehind := hs.behind j
  have hahead := hs.ahead j
  have hpassed := hs.passed j
  cases hj : (s.threads j).pc with
  | starting woken | running | ending woken =>
      simp only [Thread.reached, Thread.passed, hj] at hbehind hahead hpassed
      exact ⟨by omega, rfl⟩
  | restart | decide | returned =>
      simp only [Thread.reached, Thread.passed, hj] at hbehind hahead hpassed
      omega

theorem iteration_close {b : ℕ} (hs : Lockstep s b) (i j : Fin n) :
    (s.threads i).iteration ≤ (s.threads j).iteration + 1 := by
  have hi : 2 * (s.threads i).iteration ≤ (s.threads i).passed := by
    unfold Thread.passed
    split <;> omega
  have hj : (s.threads j).reached ≤ 2 * (s.threads j).iteration + 2 := by
    unfold Thread.reached
    split <;> omega
  have hpassed := hs.passed i
  have hbehind := hs.behind j
  omega

/-- A non-zero `threads_ending` in the middle of a stage comes from a thread that has
ended this very stage. -/
theorem Lockstep.exists_ended {b : ℕ} (hs : Lockstep s b) {i : Fin n}
    (hpc : (s.threads i).pc = .running) (hending : s.ending ≠ 0) :
    ∃ j woken, (s.threads j).pc = .ending woken ∧
      (s.threads j).iteration = (s.threads i).iteration := by
  have hb := hs.at_running hpc
  have hcount := (hs.ending (by omega)).2
  obtain ⟨j, hj⟩ : ∃ j, Stages.ahead b (s.threads j) = true := by
    by_contra hnone
    have hzero : count (Stages.ahead b) s.threads = 0 := by
      refine total_eq_zero fun j => ?_
      rw [Bool.eq_false_iff.mpr fun h => hnone ⟨j, h⟩]
      rfl
    exact hending (hcount.trans hzero)
  obtain ⟨hiter, hin⟩ := hs.same_stage hpc j
  simp only [Stages.ahead, decide_eq_true_eq] at hj
  cases hpcj : (s.threads j).pc with
  | ending woken => exact ⟨j, woken, hpcj, hiter⟩
  | starting woken =>
      simp only [Thread.reached, hpcj] at hj
      omega
  | running =>
      simp only [Thread.reached, hpcj] at hj
      omega
  | _ => simp [hpcj, Pc.inStage] at hin

/-- In every run, while a thread runs a stage all threads are between the barriers of that
stage, and an operation is cut off only when another thread has ended the stage. -/
theorem stages_in_lockstep (run : (machine stonewall more).Run h s) {i : Fin n}
    (hpc : (s.threads i).pc = .running) :
    (∀ j, (s.threads j).iteration = (s.threads i).iteration ∧ (s.threads j).pc.inStage) ∧
    ((step stonewall more s (.cut i)).isSome →
      ∃ j ≠ i, ∃ woken, (s.threads j).pc = .ending woken ∧
        (s.threads j).iteration = (s.threads i).iteration) := by
  obtain ⟨b, hs⟩ := lockstep_run i.pos run
  refine ⟨hs.same_stage hpc, fun hcut => ?_⟩
  have hending : s.ending ≠ 0 := by
    intro h0
    simp [step, hpc, h0] at hcut
  obtain ⟨j, woken, hj, hiter⟩ := hs.exists_ended hpc hending
  refine ⟨j, ?_, woken, hj, hiter⟩
  rintro rfl
  simp [hpc] at hj

/-- The first of two threads ends its stage while the second is still at work. -/
theorem stages_in_lockstep_cut :
    ∃ h s, (machine (n := 2) true fun _ _ => false).Run h s ∧ (s.threads 1).pc = .running ∧
      ∃ j ≠ 1, ∃ woken, (s.threads j).pc = .ending woken ∧
        (s.threads j).iteration = (s.threads 1).iteration := by
  have run := (machine (n := 2) true fun _ _ => false).run_of_replay
    [.start 0, .start 1, .wakeup 0, .finish 0] rfl
  exact ⟨_, _, run, rfl, (stages_in_lockstep run (i := 1) rfl).2 rfl⟩

/-! ## When the threads come to their end -/

/-- As long as all threads go on together, they stop together. -/
def Agree (more : Fin n → ℕ → Bool) : Prop :=
  ∀ k, (∀ k' < k, ∀ i, more i k') → ∀ i j, more i k = more j k

/-- The stages behind a thread are those after which it had more to do. -/
def Thread.Decided (more : ℕ → Bool) (t : Thread) : Prop :=
  (∀ k < t.iteration, more k) ∧ (t.pc = .returned → more t.iteration = false)

theorem decided_set {i : Fin n} {t : Thread}
    (hd : ∀ j, (s.threads j).Decided (more j)) (ht : t.Decided (more i)) (j : Fin n) :
    ((s.set i t).threads j).Decided (more j) := by
  by_cases hj : j = i
  · subst j
    simpa [State.set] using ht
  · simpa [State.set, hj] using hd j

/-- A move within a stage. -/
theorem decided_goto {i : Fin n} {pc : Pc} (hd : ∀ j, (s.threads j).Decided (more j))
    (hpc : pc ≠ .returned) (j : Fin n) : ((s.goto i pc).threads j).Decided (more j) :=
  decided_set (t := { s.threads i with pc := pc }) hd ⟨(hd i).1, fun h => absurd h hpc⟩ j

theorem decided_broadcast (hd : ∀ j, (s.threads j).Decided (more j)) (j : Fin n) :
    (s.broadcast.threads j).Decided (more j) := by
  have hj := hd j
  unfold State.broadcast Thread.broadcast
  simp only
  split
  · exact ⟨hj.1, by simp⟩
  · exact ⟨hj.1, by simp⟩
  · exact hj

theorem decided_step (hd : ∀ j, (s.threads j).Decided (more j))
    (hstep : step stonewall more s l = some s') (j : Fin n) :
    (s'.threads j).Decided (more j) := by
  cases l with
  | start i =>
      simp only [step] at hstep
      split at hstep <;> cases hstep
      unfold State.start
      by_cases hlast : s.starting + 1 = n
      · simp only [hlast, if_true]
        exact decided_goto (decided_broadcast hd) (by simp) j
      · simp only [hlast, if_false]
        exact decided_goto hd (by simp) j
  | wakeup i =>
      simp only [step] at hstep
      split at hstep <;> cases hstep
      · exact decided_goto hd (by split <;> simp) j
      · exact decided_goto hd (by split <;> simp) j
  | spurious i =>
      simp only [step] at hstep
      split at hstep <;> cases hstep
      · exact decided_goto hd (by simp) j
      · exact decided_goto hd (by simp) j
  | cut i =>
      simp only [step] at hstep
      split at hstep
      · split at hstep <;> cases hstep
        exact hd j
      · cases hstep
  | finish i =>
      simp only [step] at hstep
      split at hstep <;> cases hstep
      unfold State.finish
      by_cases hlast : s.ending + 1 = n
      · simp only [hlast, if_true]
        exact decided_goto (decided_broadcast hd) (by simp) j
      · simp only [hlast, if_false]
        exact decided_goto hd (by simp) j
  | decide i =>
      simp only [step] at hstep
      split at hstep
      · split at hstep <;> cases hstep
        · refine decided_set hd ⟨fun k hk => ?_, by simp⟩ j
          rcases Nat.lt_succ_iff_lt_or_eq.mp hk with hlt | rfl
          · exact (hd i).1 k hlt
          · assumption
        · exact decided_set (t := { s.threads i with pc := .returned }) hd
            ⟨(hd i).1, fun _ => by simpa using ‹¬ more i _ = true›⟩ j
      · cases hstep

theorem decided_run (run : (machine stonewall more).Run h s) :
    ∀ j, (s.threads j).Decided (more j) :=
  run.invariant (I := fun _ s => ∀ j, (s.threads j).Decided (more j))
    (fun _ => ⟨fun _ hk => absurd hk (Nat.not_lt_zero _), by simp [machine]⟩)
    fun _ _ _ _ _ hd hstep => decided_step hd hstep

/-- A step that neither waits for a spurious wakeup nor repeats. -/
def Label.advances : Label n → Bool
  | .spurious _ | .cut _ => false
  | _ => true

def CanGoOn (stonewall : Bool) (more : Fin n → ℕ → Bool) (s : State n) : Prop :=
  ∃ l : Label n, l.advances ∧ (step stonewall more s l).isSome

/-- Who cannot go on is asleep or has returned. -/
theorem asleep_or_returned (hstuck : ¬ CanGoOn stonewall more s) (i : Fin n) :
    (s.threads i).asleep = true ∨ (s.threads i).pc = .returned := by
  cases hpc : (s.threads i).pc with
  | restart => exact absurd ⟨.start i, rfl, by simp [step, hpc]⟩ hstuck
  | starting woken =>
      cases woken with
      | true => exact absurd ⟨.wakeup i, rfl, by simp [step, hpc]⟩ hstuck
      | false => exact .inl (by simp [Thread.asleep, hpc])
  | running => exact absurd ⟨.finish i, rfl, by simp [step, hpc]⟩ hstuck
  | ending woken =>
      cases woken with
      | true => exact absurd ⟨.wakeup i, rfl, by simp [step, hpc]⟩ hstuck
      | false => exact .inl (by simp [Thread.asleep, hpc])
  | decide =>
      refine absurd ⟨.decide i, rfl, ?_⟩ hstuck
      simp only [step, hpc]
      split <;> rfl
  | returned => exact .inr rfl

theorem Thread.reached_ne_of_asleep {t : Thread} (h : t.asleep = true) : t.reached ≠ t.passed := by
  simp only [Thread.asleep, decide_eq_true_eq] at h
  rcases h with h | h
  · simp [Thread.reached, Thread.passed, h]
  · simp [Thread.reached, Thread.passed, h]

/-- If the threads agree, only returned threads are ever stuck. -/
theorem canGoOn_or_returned {b : ℕ} (hs : Lockstep s b)
    (hd : ∀ j, (s.threads j).Decided (more j)) (hagree : Agree more) :
    CanGoOn stonewall more s ∨ ∀ i, (s.threads i).pc = .returned := by
  by_contra hnot
  simp only [not_or, not_forall] at hnot
  obtain ⟨hstuck, i, hi⟩ := hnot
  have hsleep := (asleep_or_returned hstuck i).resolve_right hi
  have hpassed := hs.asleep i hsleep
  -- a thread that has reached no more than `b` barriers has returned
  obtain ⟨j, hj⟩ := hs.some_behind
  have hret : (s.threads j).pc = .returned := by
    rcases asleep_or_returned hstuck j with h | h
    · exact absurd (hj.trans (hs.asleep j h).symm) (Thread.reached_ne_of_asleep h)
    · exact h
  have hb : b = 2 * (s.threads j).iteration + 2 := by
    simpa [Thread.reached, hret] using hj.symm
  -- so the sleeping thread waits for the stage after the last one of `j`
  have hiter : (s.threads i).iteration = (s.threads j).iteration + 1 := by
    simp only [Thread.asleep, decide_eq_true_eq] at hsleep
    rcases hsleep with h | h
    · simp only [Thread.passed, h] at hpassed
      omega
    · simp only [Thread.passed, h] at hpassed
      omega
  have hbefore : ∀ k < (s.threads j).iteration, ∀ m, more m k := by
    intro k hk m
    refine (hd m).1 k ?_
    have hclose := iteration_close hs i m
    omega
  have hsame := hagree _ hbefore i j
  rw [(hd j).2 hret, (hd i).1 _ (by omega)] at hsame
  cases hsame

/-- If two threads disagree, one of them waits for ever for the other. -/
theorem exists_not_returned {b : ℕ} (hs : Lockstep s b)
    (hd : ∀ j, (s.threads j).Decided (more j)) (hagree : ¬ Agree more) :
    ∃ i, (s.threads i).pc ≠ .returned := by
  by_contra hall
  simp only [not_exists, not_not] at hall
  apply hagree
  have hiter : ∀ i j, (s.threads i).iteration = (s.threads j).iteration := by
    intro i j
    have hpi := hs.passed i
    have hpj := hs.passed j
    have hri := hs.behind i
    have hrj := hs.behind j
    simp only [Thread.passed, Thread.reached, hall] at hpi hpj hri hrj
    omega
  intro k hk i j
  rcases lt_trichotomy k (s.threads i).iteration with hlt | heq | hgt
  · rw [(hd i).1 k hlt, (hd j).1 k (hiter i j ▸ hlt)]
  · have hi := (hd i).2 (hall i)
    have hj := (hd j).2 (hall j)
    rw [heq, hi, hiter i j, hj]
  · have hi := (hd i).2 (hall i)
    rw [hk _ hgt i] at hi
    cases hi

/-- In every run, if the threads agree after which stages there is more to do, some thread
can go on until all have returned; if they do not agree, they never have all returned. -/
theorem stages_complete (run : (machine stonewall more).Run h s) :
    (Agree more → CanGoOn stonewall more s ∨ ∀ i, (s.threads i).pc = .returned) ∧
    (¬ Agree more → ∃ i, (s.threads i).pc ≠ .returned) := by
  have hd := decided_run run
  rcases Nat.eq_zero_or_pos n with rfl | hn
  · refine ⟨fun _ => .inr fun i => i.elim0, fun hagree => ?_⟩
    exact absurd (fun k _ i => i.elim0) hagree
  · obtain ⟨b, hs⟩ := lockstep_run hn run
    exact ⟨canGoOn_or_returned hs hd, exists_not_returned hs hd⟩

/-- An I/O error ends the first thread after one stage, and the second one waits for it at
the start of the next. -/
theorem stages_complete_error :
    ∃ h s, (machine (n := 2) true fun i k => decide (i = 1 ∧ k = 0)).Run h s ∧
      (s.threads 0).pc = .returned ∧ (s.threads 1).pc = .starting false ∧
      ∃ i, (s.threads i).pc ≠ .returned := by
  have run := (machine (n := 2) true fun i k => decide (i = 1 ∧ k = 0)).run_of_replay
    [.start 0, .start 1, .wakeup 0, .finish 0, .finish 1, .wakeup 0, .decide 0, .decide 1,
      .start 1] rfl
  refine ⟨_, _, run, rfl, rfl, (stages_complete run).2 fun hagree => ?_⟩
  have hsame := hagree 0 (fun _ hk => absurd hk (Nat.not_lt_zero _)) 0 1
  simp at hsame

end AutotestClient.Aiostress.Stages
