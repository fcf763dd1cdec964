import AutotestClient.Shared.Machine
import Mathlib.Data.Multiset.AddSub
import Mathlib.Data.Nat.Bits
import Mathlib.Data.Multiset.Count
import Mathlib.Logic.Function.Basic

/-! # The I/O of one aio-stress thread

`worker`, `run_active_list`, `build_oper`, `run_built`, `read_some_events`, `io_oper_wait` and
`restart_oper` of `aiostress/aio-stress.c`. A step ends at a call of the kernel or at a test of
a loop. What the kernel returns is in the labels. -/

namespace AutotestClient.Aiostress.Worker

/-- The commands, in the order of their numbers. -/
inductive Rw where
  | write
  | read
  | rwrite
  | rread
  deriving DecidableEq

/-- What `main` has read; `iterations` is `none` for `RUN_FOREVER`, and no stages stand for all. -/
structure Options where
  fileSize : ℕ
  contextOffset : ℕ
  numFiles : ℕ
  numContexts : ℕ
  numThreads : ℕ
  depth : ℕ
  ioIter : ℕ
  maxIoSubmit : ℕ
  recLen : ℕ
  iterations : Option ℕ
  stonewall : Bool
  stages : List Rw

namespace Options

end Options

/-- The options as `worker` uses them, and the part of its file for each operation of the thread:
one with room for a record. -/
structure Config where
  numFiles : ℕ
  depth : ℕ
  ioIter : ℕ
  maxIoSubmit : ℕ
  reclen : ℕ
  iterations : Option ℕ
  stonewall : Bool
  stages : Rw → Bool
  start : Fin numFiles → ℕ
  stop : Fin numFiles → ℕ
  rw : Rw
  ioIter_pos : 0 < ioIter
  ioIter_le_depth : ioIter ≤ depth
  ioIter_le_max : ioIter ≤ maxIoSubmit
  reclen_pos : 0 < reclen
  room : ∀ o, start o + reclen ≤ stop o

/-- An `io_oper`. -/
abbrev Oper (c : Config) := Fin c.numFiles

/-- An `io_unit` of the array `ios`. -/
abbrev Iou (c : Config) := Fin (c.numFiles * c.depth)

/-- The fields of `struct io_oper` that change. -/
structure OperState where
  rw : Rw
  numPending : ℕ
  lastErr : ℤ
  numErr : ℕ
  startedIos : ℕ
  lastOffset : ℕ
  stonewalled : Bool
  deriving DecidableEq

/-- `busy` is `IO_PENDING`; `offset` is in the `iocb`. -/
structure IoUnit (c : Config) where
  busy : Bool
  oper : Option (Oper c)
  offset : ℕ
  deriving DecidableEq

/-- `my_iocbs` and `built_opers` of a call of `run_active_list`. -/
structure Batch (c : Config) where
  iocbs : List (Iou c)
  built : List (Oper c)
  deriving DecidableEq

inductive Pc (c : Config) where
  /-- The `while` over `active_opers`. -/
  | loop
  | scan (oper : Oper c) (batch : Batch c)
  /-- `left` more units to build for the operation. -/
  | build (oper : Oper c) (left : ℕ) (batch : Batch c)
  | submit (batch : Batch c)
  /-- `read_some_events` before the next `io_submit`. -/
  | resubmit (batch : Batch c)
  /-- The operations still to be waited for. -/
  | wait (rest : List (Oper c))
  | drained
  | ended
  /-- `find_iou` found no unit. -/
  | starved
  /-- "io unit on free list but not free". -/
  | badUnit
  /-- `io_submit` wants a completion and there is none. -/
  | aborted
  /-- `error %d on run_built`. -/
  | failed
  deriving DecidableEq

/-- `kernel` is what was submitted and not reaped. -/
structure State (c : Config) where
  opers : Oper c → OperState
  units : Iou c → IoUnit c
  free : List (Iou c)
  active : List (Oper c)
  finished : List (Oper c)
  pending : ℕ
  kernel : Multiset (Iou c)
  cnt : ℕ
  pc : Pc c

/-- A completion, with the result if `check_finished_io` counts it as an error. -/
abbrev Event (c : Config) := Iou c × Option ℤ

inductive Label (c : Config) where
  | test (ending : Bool)
  | runnable (large : Bool)
  | grab (offset : ℕ)
  | built
  | reap (events : List (Event c))
  | submit (ret : ℕ)
  | again
  | submitFails
  | waited
  | restart
  deriving DecidableEq

variable {c : Config}

/-- `(oper->end - oper->start) / oper->reclen`. -/
def Config.totalIos (c : Config) (o : Oper c) : ℕ := (c.stop o - c.start o) / c.reclen

def Rw.sequential : Rw → Bool
  | .write | .read => true
  | _ => false

/-- A megabyte. -/
@[irreducible] def mb : ℕ := 1024 * 1024

/-- `random_byte_offset` with the mask `pageSize - 1`; `r` and `r'` are the two results of
`rand()`. The products are exact as a `double`, for parts below 4 TB. -/
def randomByteOffset (start stop reclen pageSize randMax r r' : ℕ) : ℤ :=
  let offset := if mb < pageSize then pageSize / mb else 1
  let range := (stop - start) / mb
  let range := if range < offset then 0 else range - offset
  -- find a random mb offset
  let byte := start + (1 + range * r / (randMax + 1)) * mb
  -- find a random byte offset
  let num := 1 + mb * r' / (randMax + 1)
  -- page align with `& ~page_size_mask`
  let byte := byte + (num + (pageSize - 1)).ldiff (pageSize - 1)
  if stop < byte + reclen then (byte : ℤ) - reclen else byte

/-- `oper_list_add`. -/
def operListAdd (o : Oper c) (list : List (Oper c)) : List (Oper c) := list ++ [o]

/-- `oper_list_del`. -/
def operListDel (o : Oper c) (list : List (Oper c)) : List (Oper c) := list.erase o

/-- `oper_runnable`; `large` is the answer of `fstat`. -/
def operRunnable (s : State c) (o : Oper c) (large : Bool) : Bool :=
  decide ((s.opers o).startedIos ≠ 0) || decide (c.start o = 0) ||
    !(s.opers o).rw.sequential || large

/-- The number of units that `build_oper` is to build. -/
def buildCount (s : State c) (o : Oper c) : ℕ :=
  if c.totalIos o < (s.opers o).startedIos + c.ioIter then
    c.totalIos o - (s.opers o).startedIos
  else c.ioIter

/-- `oper->next` in the ring of the active operations. -/
def nextActive (s : State c) (o : Oper c) : Option (Oper c) :=
  s.active[(s.active.idxOf o + 1) % s.active.length]?

def State.setOper (s : State c) (o : Oper c) (os : OperState) : State c :=
  { s with opers := Function.update s.opers o os }

/-- `build_iocb` with the unit `v`; `offset` is the random one. -/
def State.buildIocb (s : State c) (v : Iou c) (o : Oper c) (offset : ℕ) : State c :=
  let os := s.opers o
  if os.rw.sequential then
    { s.setOper o { os with lastOffset := os.lastOffset + c.reclen } with
      units := Function.update s.units v ⟨true, some o, os.lastOffset⟩ }
  else
    { s.setOper o { os with lastOffset := offset } with
      units := Function.update s.units v ⟨true, some o, offset⟩ }

/-- `finish_io`. -/
def State.finishIo (s : State c) (e : Event c) : State c :=
  let unit := s.units e.1
  { s with
    units := Function.update s.units e.1 { unit with busy := false }
    free := e.1 :: s.free
    pending := s.pending - 1
    opers := fun o =>
      let os := s.opers o
      if unit.oper = some o then
        { os with
          numPending := os.numPending - 1
          lastErr := e.2.getD os.lastErr
          numErr := os.numErr + if e.2.isSome then 1 else 0 }
      else os }

/-- `read_some_events` after `io_getevents` has returned the events. -/
def State.readEvents (s : State c) (events : List (Event c)) : State c :=
  events.foldl State.finishIo { s with kernel := s.kernel - ↑(events.map Prod.fst) }

/-- `update_iou_counters`, and the kernel has the units. -/
def State.updateIouCounters (s : State c) (vs : List (Iou c)) : State c :=
  { s with
    pending := s.pending + vs.length
    kernel := s.kernel + ↑vs
    opers := fun o =>
      let os := s.opers o
      let k := vs.countP fun v => decide ((s.units v).oper = some o)
      { os with numPending := os.numPending + k, startedIos := os.startedIos + k } }

/-- The end of `run_active_list` for one of the built operations. -/
def State.requeue (s : State c) (o : Oper c) : State c :=
  let active := operListAdd o s.active
  if (s.opers o).startedIos = c.totalIos o then
    { s with active := operListDel o active, finished := operListAdd o s.finished }
  else { s with active := active }

/-- `restart_oper`: the command after `rw`, the cases of its `switch` falling through. -/
def restartOper (stages : Rw → Bool) (os : OperState) : Option Rw :=
  if os.lastErr ≠ 0 then none
  else match os.rw with
    | .write => [Rw.read, .rwrite, .rread].find? stages
    | .read => [Rw.rwrite, .rread].find? stages
    | .rwrite => [Rw.rread].find? stages
    | .rread => none

/-- The loop of `worker` over the finished operations: who has another stage is moved
back to the active ones. -/
def State.restart (s : State c) (o : Oper c) : State c :=
  match restartOper c.stages (s.opers o) with
  | some rw =>
      { s with
        opers := Function.update s.opers o { s.opers o with
          rw := rw, startedIos := 0, lastOffset := c.start o, stonewalled := false }
        active := operListAdd o s.active
        finished := operListDel o s.finished }
  | none => s

/-- `cnt < iterations || iterations == RUN_FOREVER`. -/
def State.more (s : State c) : Bool := c.iterations.all fun n => decide (s.cnt < n)

/-- After the `while` of `run_active_list`. -/
def State.runBuilt (s : State c) (batch : Batch c) : State c :=
  { s with pc := if batch.iocbs = [] then .loop else .submit batch }

/-- The events that `io_getevents` may return for at least `minNr` of them. -/
def State.mayReap (s : State c) (minNr : ℕ) (events : List (Event c)) : Prop :=
  ↑(events.map Prod.fst) ≤ s.kernel ∧ minNr ≤ events.length

instance (s : State c) (minNr : ℕ) (events : List (Event c)) :
    Decidable (s.mayReap minNr events) :=
  inferInstanceAs (Decidable (_ ∧ _))

/-- `min_nr` of `read_some_events`. -/
def State.minNr (s : State c) : ℕ := if s.pending < c.ioIter then s.pending else c.ioIter

def step (c : Config) (s : State c) : Label c → Option (State c)
  | .test ending =>
      match s.pc with
      | .loop =>
          match s.active with
          | [] => some { s with pc := .wait s.finished }
          | o :: _ =>
              if s.more then
                -- `stonewall && threads_ending`
                if c.stonewall && ending then
                  some { s.setOper o { s.opers o with stonewalled := true } with
                    active := operListDel o s.active
                    finished := operListAdd o s.finished
                    cnt := s.cnt + 1 }
                else some { s with pc := .scan o ⟨[], []⟩, cnt := s.cnt + 1 }
              else some { s with pc := .wait s.finished }
      | _ => none
  | .runnable large =>
      match s.pc with
      | .scan o batch =>
          if operRunnable s o large then some { s with pc := .build o (buildCount s o) batch }
          else if nextActive s o = s.active.head? then some (s.runBuilt batch)
          else (nextActive s o).map fun next => { s with pc := .scan next batch }
      | _ => none
  | .grab offset =>
      match s.pc, s.free with
      | .build o (left + 1) batch, v :: free =>
          if (s.units v).busy then some { s with pc := .badUnit }
          else
            some { s.buildIocb v o offset with
              free := free
              pc := .build o left { batch with iocbs := batch.iocbs ++ [v] } }
      | _, _ => none
  | .built =>
      match s.pc with
      | .build o 0 batch =>
          let active := operListDel o s.active
          let batch := { batch with built := operListAdd o batch.built }
          if c.maxIoSubmit < batch.iocbs.length + c.ioIter then
            some ({ s with active := active }.runBuilt batch)
          else match active with
            | [] => some ({ s with active := active }.runBuilt batch)
            | next :: _ => some { s with active := active, pc := .scan next batch }
      | _ => none
  | .reap events =>
      match s.pc with
      -- `find_iou`
      | .build _ (_ + 1) _ =>
          if s.free = [] ∧ s.mayReap s.minNr events then
            if events = [] then some { s with pc := .starved } else some (s.readEvents events)
          else none
      | .resubmit batch =>
          if s.mayReap s.minNr events then
            if events = [] then some { s with pc := .aborted }
            else some { s.readEvents events with pc := .submit batch }
          else none
      -- `io_oper_wait` takes one event at a time
      | .wait (o :: _) =>
          if (s.opers o).numPending ≠ 0 ∧ s.mayReap 1 events ∧ events.length = 1 then
            some (s.readEvents events)
          else none
      | _ => none
  | .submit ret =>
      match s.pc with
      | .submit batch =>
          if 0 < ret ∧ ret < batch.iocbs.length then
            some { s.updateIouCounters (batch.iocbs.take ret) with
              pc := .resubmit { batch with iocbs := batch.iocbs.drop ret } }
          else if ret = batch.iocbs.length then
            some { batch.built.foldl State.requeue (s.updateIouCounters batch.iocbs) with
              pc := .loop }
          else none
      | _ => none
  -- `-EAGAIN`
  | .again =>
      match s.pc with
      | .submit batch => some { s with pc := .resubmit batch }
      | _ => none
  | .submitFails =>
      match s.pc with
      | .submit _ => some { s with pc := .failed }
      | _ => none
  | .waited =>
      match s.pc with
      | .wait [] => some { s with pc := .drained }
      | .wait (o :: rest) =>
          if (s.opers o).numPending = 0 then some { s with pc := .wait rest } else none
      | _ => none
  | .restart =>
      match s.pc with
      | .drained =>
          let t := s.finished.foldl State.restart s
          if t.active ≠ [] ∧ t.more then some { t with pc := .loop, cnt := 0 }
          else some { t with pc := .ended }
      | _ => none

/-- After `setup_ious`, with the operations in the order in which `main` created them. -/
def machine (c : Config) : Shared.Machine (State c) (Label c) where
  init :=
    { opers := fun o => ⟨c.rw, 0, 0, 0, 0, c.start o, false⟩
      units := fun _ => ⟨false, none, 0⟩
      free := (List.finRange (c.numFiles * c.depth)).reverse
      active := List.finRange c.numFiles
      finished := []
      pending := 0
      kernel := 0
      cnt := 0
      pc := .loop }
  step := step c

end AutotestClient.Aiostress.Worker
