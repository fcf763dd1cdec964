import AutotestClient.Shared.Machine
import Mathlib.Data.Fintype.Basic
import Mathlib.Logic.Function.Basic

/-! # The monotonic clock test

`n` threads run `test_loop` of `monotonic_time/src/time_test.c` while the main thread is
in `run_test`. A critical section of the test function is one step. -/

namespace AutotestClient.TimeTest

/-- A clock value, `uint64_t`. -/
abbrev Clock := BitVec 64

/-- The shared fields of `struct test_info`. -/
structure TestInfo where
  last : Clock
  loops : ℕ
  warps : ℕ
  worst : ℤ
  done : Bool
  deriving DecidableEq

/-- Where a thread is: at the test of `done`, before the first critical section, or
before the second one with its `delta`. -/
inductive Pc where
  | test
  | measure
  | account (delta : ℤ)
  | exited
  deriving DecidableEq

/-- Where `run_test` is; `reported` carries its return value. -/
inductive MainPc where
  | waiting
  | joining
  | reported (errs : Bool)
  deriving DecidableEq

structure State (n : ℕ) where
  test : TestInfo
  pc : Fin n → Pc
  main : MainPc

inductive Label (n : ℕ) where
  | readDone (i : Fin n)
  | measure (i : Fin n) (t1 last : Clock)
  | account (i : Fin n)
  | setDone
  | report

/-- `delta < 0 && delta < -threshold`. -/
def warp (threshold : ℕ) (delta : ℤ) : Bool :=
  decide (delta < 0 ∧ delta < -(threshold : ℤ))

/-- `delta = t1 - t0`, the difference of two `uint64_t` stored in an `int64_t`. -/
def delta (t1 t0 : Clock) : ℤ := (t1 - t0).toInt

variable {n : ℕ}

def State.goto (s : State n) (i : Fin n) (pc : Pc) : State n :=
  { s with pc := Function.update s.pc i pc }

/-- One read of `done`, one critical section, or one step of `run_test`. -/
def step (threshold : ℕ) (s : State n) : Label n → Option (State n)
  | .readDone i =>
      match s.pc i with
      | .test => some (s.goto i (if s.test.done then .exited else .measure))
      | _ => none
  | .measure i t1 last =>
      match s.pc i with
      | .measure =>
          let d := delta t1 s.test.last
          some { s.goto i (if warp threshold d then .account d else .test) with
            test := { s.test with last := last, loops := s.test.loops + 1 } }
      | _ => none
  | .account i =>
      match s.pc i with
      | .account d =>
          some { s.goto i .test with
            test := { s.test with
              warps := s.test.warps + 1
              worst := if d < s.test.worst then d else s.test.worst } }
      | _ => none
  | .setDone =>
      match s.main with
      | .waiting => some { s with test := { s.test with done := true }, main := .joining }
      | _ => none
  | .report =>
      match s.main with
      | .joining =>
          if ∀ i, s.pc i = .exited then
            some { s with main := .reported (decide (s.test.warps ≠ 0)) }
          else none
      | _ => none

/-- `test_info` starts zeroed and all `n` threads have been created. -/
def machine (threshold n : ℕ) : Shared.Machine (State n) (Label n) where
  init := ⟨⟨0, 0, 0, 0, false⟩, fun _ => .test, .waiting⟩
  step := step threshold

/-! ## What the readings say -/

/-- The two clock readings of a first critical section. -/
def Label.reading? : Label n → Option (Clock × Clock)
  | .measure _ t1 last => some (t1, last)
  | _ => none

/-- The readings taken under the lock, oldest first. -/
def readings (h : List (State n × Label n)) : List (Clock × Clock) :=
  (h.filterMap fun e => e.2.reading?).reverse

/-- Each first reading less the second reading before it, `t0` being the one before
the first. -/
def differences : Clock → List (Clock × Clock) → List ℤ
  | _, [] => []
  | t0, (t1, last) :: rest => delta t1 t0 :: differences last rest

/-- The differences that count as backward jumps. -/
def jumps (threshold : ℕ) (h : List (State n × Label n)) : List ℤ :=
  (differences 0 (readings h)).filter fun d => decide (d < 0 ∧ d < -(threshold : ℤ))

end AutotestClient.TimeTest
