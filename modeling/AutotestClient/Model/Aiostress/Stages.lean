import AutotestClient.Shared.Machine
import Mathlib.Data.Fintype.Basic
import Mathlib.Logic.Function.Basic

/-! # The stages of the aio-stress threads

`worker` of `aiostress/aio-stress.c` as run by `run_workers`, seen from `stage_mutex`. A
critical section up to its `pthread_cond_wait` or unlock is one step. What the threads do in
a stage is left to the machine of one thread. -/

namespace AutotestClient.Aiostress.Stages

/-- Where a thread is; `woken` tells whether `pthread_cond_wait` will return. -/
inductive Pc where
  | restart
  | starting (woken : Bool)
  | running
  | ending (woken : Bool)
  | decide
  | returned
  deriving DecidableEq

/-- The local `iteration` of `worker`. -/
structure Thread where
  pc : Pc
  iteration : ℕ
  deriving DecidableEq

/-- `threads_starting`, `threads_ending` and the threads. -/
structure State (n : ℕ) where
  starting : ℕ
  ending : ℕ
  threads : Fin n → Thread

inductive Label (n : ℕ) where
  | start (i : Fin n)
  | wakeup (i : Fin n)
  | spurious (i : Fin n)
  | cut (i : Fin n)
  | finish (i : Fin n)
  | decide (i : Fin n)
  deriving DecidableEq

/-- `pthread_cond_broadcast(&stage_cond)`: both waits use the one condition. -/
def Thread.broadcast (t : Thread) : Thread :=
  match t.pc with
  | .starting _ => { t with pc := .starting true }
  | .ending _ => { t with pc := .ending true }
  | _ => t

variable {n : ℕ}

def State.set (s : State n) (i : Fin n) (t : Thread) : State n :=
  { s with threads := Function.update s.threads i t }

def State.goto (s : State n) (i : Fin n) (pc : Pc) : State n :=
  s.set i { s.threads i with pc := pc }

def State.broadcast (s : State n) : State n :=
  { s with threads := fun i => (s.threads i).broadcast }

/-- The start of a stage, up to the first test of `threads_starting != num_threads`. -/
def State.start (s : State n) (i : Fin n) : State n :=
  let starting := s.starting + 1
  if starting = n then { s.broadcast.goto i .running with starting := starting, ending := 0 }
  else { s.goto i (.starting false) with starting := starting }

/-- The end of a stage, up to the first test of `threads_ending != num_threads`. -/
def State.finish (s : State n) (i : Fin n) : State n :=
  let ending := s.ending + 1
  if ending = n then { s.broadcast.goto i .decide with starting := 0, ending := ending }
  else { s.goto i (.ending false) with ending := ending }

/-- `stonewall` is the option; `more i k` tells whether thread `i` still has active
operations after its stage `k`. -/
def step (stonewall : Bool) (more : Fin n → ℕ → Bool) (s : State n) : Label n → Option (State n)
  | .start i =>
      match (s.threads i).pc with
      | .restart => some (s.start i)
      | _ => none
  -- the mutex is taken again and the condition of the `while` tested
  | .wakeup i =>
      match (s.threads i).pc with
      | .starting true => some (s.goto i (if s.starting = n then .running else .starting false))
      | .ending true => some (s.goto i (if s.ending = n then .decide else .ending false))
      | _ => none
  | .spurious i =>
      match (s.threads i).pc with
      | .starting _ => some (s.goto i (.starting true))
      | .ending _ => some (s.goto i (.ending true))
      | _ => none
  -- `stonewall && threads_ending`, read without the mutex: an operation is cut off
  | .cut i =>
      match (s.threads i).pc with
      | .running => if stonewall ∧ s.ending ≠ 0 then some s else none
      | _ => none
  | .finish i =>
      match (s.threads i).pc with
      | .running => some (s.finish i)
      | _ => none
  | .decide i =>
      match (s.threads i).pc with
      | .decide =>
          if more i (s.threads i).iteration then
            some (s.set i ⟨.restart, (s.threads i).iteration + 1⟩)
          else some (s.goto i .returned)
      | _ => none

def machine (stonewall : Bool) (more : Fin n → ℕ → Bool) : Shared.Machine (State n) (Label n) where
  init := ⟨0, 0, fun _ => ⟨.restart, 0⟩⟩
  step := step stonewall more

end AutotestClient.Aiostress.Stages
