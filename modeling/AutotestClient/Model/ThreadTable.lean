import AutotestClient.Model.CpuSet
import AutotestClient.Shared.Machine
import Mathlib.Logic.Function.Basic

/-! # The thread table of the monotonic clock test

The three functions of `monotonic_time/src/threads.c` share the array `threads` and its
counter `num_threads`. The results of `pthread_create` are chosen by the environment. -/

namespace AutotestClient.ThreadTable

open CpuSet (cpuSetsize)

/-- `MAX_CPUS`, and with it the number of entries of `threads`. -/
def maxThreads : ℤ := cpuSetsize

/-- `thread_t`. Threads are numbered in the order of their creation; `func` and `arg`
are addresses. -/
structure Thread where
  thread : ℕ
  cpus : Finset ℕ
  func : ℕ
  arg : ℕ

/-- The statics of the file, and what the calls did to threads and table so far.
`threads` has no bound: it is the memory that starts at the array. -/
structure State where
  threads : ℤ → Thread
  numThreads : ℤ
  /-- Threads created so far, which is also the next one's number. -/
  created : ℕ
  /-- The arguments of `pthread_join`, oldest first. -/
  joined : List ℕ
  /-- The indices the code used on `threads`. -/
  accessed : List ℤ
  /-- For each creating call its return value and the threads it created. -/
  returned : List (ℤ × ℕ)

/-- The common part of both creating loops: fill in `threads[num_threads++]` and call
`pthread_create`, which fails if `err`. -/
def State.spawn (s : State) (cpus : Finset ℕ) (func arg : ℕ) (err : Bool) : State :=
  let i := s.numThreads
  let thread : Thread := ⟨(s.threads i).thread, cpus, func, arg⟩
  let s := { s with
    threads := Function.update s.threads i thread
    numThreads := i + 1
    accessed := i :: s.accessed }
  if err then
    { s with numThreads := s.numThreads - 1 }
  else
    { s with
      threads := Function.update s.threads i { thread with thread := s.created }
      created := s.created + 1 }

section Creating

variable (func arg : ℕ) (fails : ℕ → Bool)

/-- The loop of `create_per_cpu_threads` over the CPUs still to visit, `k` being the
number of `pthread_create` calls made before. -/
def perCpuLoop (cpus : Finset ℕ) : List ℕ → ℕ → State → State
  | [], _, s => s
  | cpu :: rest, k, s =>
      if cpu ∈ cpus then
        if maxThreads ≤ s.numThreads then
          s
        else if fails k then
          s.spawn {cpu} func arg true
        else
          perCpuLoop cpus rest (k + 1) (s.spawn {cpu} func arg false)
      else
        perCpuLoop cpus rest k s

/-- `create_per_cpu_threads`: the return value and the new state. -/
def createPerCpuThreads (cpus : Finset ℕ) (s : State) : ℤ × State :=
  let s := perCpuLoop func arg fails cpus (List.range cpuSetsize) 0 s
  (s.numThreads, s)

/-- The loop of `create_threads` with a number of rounds to go. It does not look at
`MAX_THREADS`. -/
def createLoop : ℕ → ℕ → State → State
  | 0, _, s => s
  | m + 1, k, s =>
      if fails k then
        s.spawn ∅ func arg true
      else
        createLoop m (k + 1) (s.spawn ∅ func arg false)

/-- How often `while (--nthreads >= 0)` is entered. The decrement of an `int` wraps, so
`INT_MIN` gives `2^31` rounds. -/
def rounds (nthreads : BitVec 32) : ℕ := ((nthreads - 1).toInt + 1).toNat

/-- `create_threads`: the return value and the new state. -/
def createThreads (nthreads : BitVec 32) (s : State) : ℤ × State :=
  let nthreads := if maxThreads < nthreads.toInt then BitVec.ofInt 32 maxThreads else nthreads
  let s := createLoop func arg fails (rounds nthreads) 0 s
  (s.numThreads, s)

end Creating

/-- `pthread_join(threads[--num_threads].thread, NULL)`. -/
def State.joinLast (s : State) : State :=
  let i := s.numThreads - 1
  { s with
    numThreads := i
    joined := s.joined ++ [(s.threads i).thread]
    accessed := i :: s.accessed }

/-- `while (num_threads > 0)`, with a bound on the rounds. -/
def joinLoop : ℕ → State → State
  | 0, s => s
  | m + 1, s => if 0 < s.numThreads then joinLoop m s.joinLast else s

def joinThreads (s : State) : State := joinLoop s.numThreads.toNat s

/-- A call, with the results of its `pthread_create` calls in order. -/
inductive Call where
  | createPerCpuThreads (cpus : Finset ℕ) (func arg : ℕ) (fails : ℕ → Bool)
  | createThreads (nthreads : BitVec 32) (func arg : ℕ) (fails : ℕ → Bool)
  | joinThreads

/-- Notes the return value beside the number of threads the call created. -/
def State.record (before : State) (r : ℤ × State) : State :=
  { r.2 with returned := (r.1, r.2.created - before.created) :: r.2.returned }

def State.call (s : State) : Call → State
  | .createPerCpuThreads cpus func arg fails =>
      s.record (ThreadTable.createPerCpuThreads func arg fails cpus s)
  | .createThreads nthreads func arg fails =>
      s.record (ThreadTable.createThreads func arg fails nthreads s)
  | .joinThreads => ThreadTable.joinThreads s

/-- The statics start zeroed. -/
def machine : Shared.Machine State Call where
  init := ⟨fun _ => ⟨0, ∅, 0, 0⟩, 0, 0, [], [], []⟩
  step s c := some (s.call c)

/-- The threads in entries `0..num_threads-1`. -/
def State.entries (s : State) : List ℕ :=
  (List.range s.numThreads.toNat).map fun i : ℕ => (s.threads i).thread

/-! ## What the table is for -/

structure Exact (s : State) : Prop where
  nonneg : 0 ≤ s.numThreads
  le_max : s.numThreads ≤ maxThreads
  accessed : ∀ i ∈ s.accessed, 0 ≤ i ∧ i < maxThreads
  returned : ∀ r ∈ s.returned, r.1 = r.2
  nodup : s.entries.Nodup
  live : ∀ t, t ∈ s.entries ↔ t < s.created ∧ t ∉ s.joined
  /-- A `join_threads` call here would join the live threads, each once. -/
  joins : (joinThreads s).numThreads = 0 ∧
    ∃ ts, (joinThreads s).joined = s.joined ++ ts ∧ ts.Perm s.entries

end AutotestClient.ThreadTable
