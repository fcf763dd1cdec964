import AutotestClient.Shared.Machine
import Mathlib.Data.Finset.Basic
import Mathlib.Data.List.ProdSigma

/-! # The TSC synchronization check

`check_tsc`, `tsc_delta` and `slave_thread` of `tsc/src/checktsc.c` as two processes on
the shared variables `master.state`, `slave.state`, `slave_cpu` and `slave_tsc`. A step
is one read or write of a shared variable, one clock reading or one affinity call. -/

namespace AutotestClient.CheckTsc

/-- A 64-bit time stamp. -/
abbrev Tsc := BitVec 64

/-- `MAX_CPUS`, the bound of the loops in `check_tsc`. -/
def maxCpus : ℕ := 32

/-- `CPU_SETSIZE`, the bound of `parse_cpu_set`. -/
def cpuSetSize : ℕ := 1024

/-- `NUM_ITERS`. -/
def numIters : ℕ := 10

/-! ## The measurement -/

/-- The readings of one exchange: `t0`, `slave_tsc` and `t1`. -/
structure Sample where
  t0 : Tsc
  tm : Tsc
  t1 : Tsc
  deriving DecidableEq

/-- `best_t0`, `best_t1` and `best_tm`. -/
structure Best where
  t0 : Tsc
  t1 : Tsc
  tm : Tsc
  deriving DecidableEq

def Best.start : Best := ⟨0, ~~~0, 0⟩

/-- The sample replaces the best one if its round trip is shorter. -/
def Best.improve (b : Best) (x : Sample) : Best :=
  if x.t1 - x.t0 < b.t1 - b.t0 then ⟨x.t0, x.t1, x.tm⟩ else b

/-- `(best_t0/2 + best_t1/2 + (best_t0 & best_t1 & 1)) - best_tm`. -/
def Best.delta (b : Best) : BitVec 64 :=
  (b.t0 / 2 + b.t1 / 2 + (b.t0 &&& b.t1 &&& 1)) - b.tm

/-- The value `tsc_delta` returns after exchanges with these samples, oldest first. -/
def tscDelta (samples : List Sample) : BitVec 64 :=
  (samples.foldl Best.improve Best.start).delta

/-- What `check_tsc` measures and how: the pairs in loop order, the number of exchanges
for each, and the threshold, a `long`. -/
structure Config where
  pairs : List (ℕ × ℕ)
  iters : ℕ
  threshold : ℤ

/-- `llabs(delta) > threshold` as the number to add to `err`. The negation in `llabs`
is that of 64-bit two's complement. -/
def Config.verdict (c : Config) (delta : BitVec 64) : ℤ :=
  if c.threshold < delta.abs.toInt then 1 else 0

/-- The two loops of `check_tsc` over the CPUs of the set below `MAX_CPUS`. -/
def cpuPairs (cpus : Finset ℕ) : List (ℕ × ℕ) :=
  ((List.range maxCpus).product (List.range maxCpus)).filter fun p =>
    p.1 ∈ cpus ∧ p.2 ∈ cpus ∧ p.1 ≠ p.2

def checkTsc (cpus : Finset ℕ) (threshold : ℤ) : Config :=
  ⟨cpuPairs cpus, numIters, threshold⟩

/-! ## The two processes -/

/-- Values of `state_t.state`. -/
inductive Flag where
  | unset | ready | done | error
  deriving DecidableEq

/-- The next statement of the master: `pair` is the head of the loops in `check_tsc`,
`storeCpu` to `delta` are in `tsc_delta`. -/
inductive MasterPc where
  | create | pair | storeCpu | ready | waitReady | readT0 | done | waitDone | readT1
  | compare | delta | stopReady | join
  | returned (err : ℤ)
  deriving DecidableEq

/-- The next statement of `slave_thread`. -/
inductive SlavePc where
  | unborn | waitReady | testStop | testCpu | affinity | setCurrent | ready | waitDone
  | write | done | error | exited
  deriving DecidableEq

/-- The shared variables, the locals of both processes, and the CPU each of them was
last bound to. `todo` begins with the pair being measured. -/
structure State where
  masterFlag : Flag
  slaveFlag : Flag
  slaveCpu : ℤ
  slaveTsc : Tsc
  masterPc : MasterPc
  todo : List (ℕ × ℕ)
  iter : ℕ
  t0 : Tsc
  t1 : Tsc
  best : Best
  err : ℤ
  masterBound : Option ℤ
  slavePc : SlavePc
  currentCpu : ℤ
  slaveBound : Option ℤ

inductive MasterLabel where
  | create (ok : Bool)
  | affinity (ok : Bool)
  | storeCpu | ready | sawReady
  | readT0 (t : Tsc)
  | done | sawDone
  | readT1 (t : Tsc)
  | compare | delta | storeStop | stopReady | join
  | retest
  deriving DecidableEq

inductive SlaveLabel where
  | sawReady | testStop | testCpu
  | affinity (ok : Bool)
  | setCurrent | ready | sawDone
  | write (t : Tsc)
  | done | error
  | retest
  deriving DecidableEq

inductive Label where
  | master (l : MasterLabel)
  | slave (l : SlaveLabel)
  deriving DecidableEq

/-- The exchange the master compares. -/
def State.sample (s : State) : Sample := ⟨s.t0, s.slaveTsc, s.t1⟩

/-- A wait of the master whose condition is false. -/
def State.masterWaits (s : State) : Bool :=
  match s.masterPc with
  | .waitReady => decide (s.slaveFlag ≠ .ready)
  | .waitDone => decide (s.slaveFlag ≠ .done)
  | .join => decide (s.slavePc ≠ .exited)
  | _ => false

/-- A wait of the slave whose condition is false. -/
def State.slaveWaits (s : State) : Bool :=
  match s.slavePc with
  | .waitReady => decide (s.masterFlag ≠ .ready)
  | .waitDone => decide (s.masterFlag ≠ .done)
  | _ => false

/-- Head of `for (i = 0; i < NUM_ITERS; i++)`. -/
def Config.loopPc (c : Config) (i : ℕ) : MasterPc := if i < c.iters then .ready else .delta

def State.ifMaster (s : State) (pc : MasterPc) (next : State) : Option State :=
  if s.masterPc = pc then some next else none

def State.ifSlave (s : State) (pc : SlavePc) (next : State) : Option State :=
  if s.slavePc = pc then some next else none

/-- One step of `check_tsc` and the `tsc_delta` it calls. -/
def masterStep (c : Config) (s : State) : MasterLabel → Option State
  | .create ok =>
      s.ifMaster .create
        (if ok then { s with masterPc := .pair, slavePc := .waitReady }
        else { s with masterPc := .returned (-1) })
  | .affinity ok =>
      match s.todo with
      | [] => none
      | (a, _) :: rest =>
          s.ifMaster .pair
            (if ok then { s with masterPc := .storeCpu, masterBound := some a }
            -- `tsc_delta` returns -1, which is compared like a measured delta
            else { s with masterPc := .pair, todo := rest, err := s.err + c.verdict (-1) })
  | .storeCpu =>
      match s.todo with
      | [] => none
      | (_, b) :: _ =>
          s.ifMaster .storeCpu
            { s with masterPc := c.loopPc 0, slaveCpu := b, iter := 0, best := .start }
  | .ready => s.ifMaster .ready { s with masterPc := .waitReady, masterFlag := .ready }
  | .sawReady =>
      if s.slaveFlag = .ready then s.ifMaster .waitReady { s with masterPc := .readT0 } else none
  | .readT0 t => s.ifMaster .readT0 { s with masterPc := .done, t0 := t }
  | .done => s.ifMaster .done { s with masterPc := .waitDone, masterFlag := .done }
  | .sawDone =>
      if s.slaveFlag = .done then s.ifMaster .waitDone { s with masterPc := .readT1 } else none
  | .readT1 t => s.ifMaster .readT1 { s with masterPc := .compare, t1 := t }
  | .compare =>
      s.ifMaster .compare
        { s with
          masterPc := c.loopPc (s.iter + 1), iter := s.iter + 1, best := s.best.improve s.sample }
  | .delta =>
      s.ifMaster .delta
        { s with masterPc := .pair, todo := s.todo.tail, err := s.err + c.verdict s.best.delta }
  | .storeStop =>
      match s.todo with
      | [] => s.ifMaster .pair { s with masterPc := .stopReady, slaveCpu := -1 }
      | _ :: _ => none
  | .stopReady => s.ifMaster .stopReady { s with masterPc := .join, masterFlag := .ready }
  | .join =>
      if s.slavePc = .exited then s.ifMaster .join { s with masterPc := .returned s.err } else none
  | .retest => if s.masterWaits then some s else none

/-- One step of `slave_thread`. -/
def slaveStep (s : State) : SlaveLabel → Option State
  | .sawReady =>
      if s.masterFlag = .ready then s.ifSlave .waitReady { s with slavePc := .testStop } else none
  | .testStop =>
      s.ifSlave .testStop { s with slavePc := if s.slaveCpu < 0 then .exited else .testCpu }
  | .testCpu =>
      s.ifSlave .testCpu
        { s with slavePc := if s.slaveCpu ≠ s.currentCpu then .affinity else .ready }
  | .affinity ok =>
      s.ifSlave .affinity
        (if ok then { s with slavePc := .setCurrent, slaveBound := some s.slaveCpu }
        else { s with slavePc := .error })
  | .setCurrent => s.ifSlave .setCurrent { s with slavePc := .ready, currentCpu := s.slaveCpu }
  | .ready => s.ifSlave .ready { s with slavePc := .waitDone, slaveFlag := .ready }
  | .sawDone =>
      if s.masterFlag = .done then s.ifSlave .waitDone { s with slavePc := .write } else none
  | .write t => s.ifSlave .write { s with slavePc := .done, slaveTsc := t }
  | .done => s.ifSlave .done { s with slavePc := .waitReady, slaveFlag := .done }
  | .error => s.ifSlave .error { s with slavePc := .exited, slaveFlag := .error }
  | .retest => if s.slaveWaits then some s else none

def step (c : Config) (s : State) : Label → Option State
  | .master l => masterStep c s l
  | .slave l => slaveStep s l

/-- The statics are zero, `current_cpu` starts at -1 and no thread exists yet. -/
def machine (c : Config) : Shared.Machine State Label where
  init :=
    { masterFlag := .unset, slaveFlag := .unset, slaveCpu := 0, slaveTsc := 0
      masterPc := .create, todo := c.pairs, iter := 0, t0 := 0, t1 := 0, best := .start
      err := 0, masterBound := none, slavePc := .unborn, currentCpu := -1, slaveBound := none }
  step := step c

abbrev History := List (State × Label)

end AutotestClient.CheckTsc
