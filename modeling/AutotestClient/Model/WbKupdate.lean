import AutotestClient.Shared.Lines
import AutotestClient.Shared.Numeral
import Mathlib.Data.List.AList

/-! # Waiting for the write-back of files

The test `wb_kupdate/wb_kupdate.py`: files are written to a file system in a sparse file, and after
each of them the test waits until the sparse file grows. Times are in microseconds. -/

namespace AutotestClient.WbKupdate

open Shared

abbrev Text := List Char

inductive Failure where
  | testError (message : Text)
  | osError
  | cmdError
  | outOfFuel
  deriving DecidableEq

/-! ## Waiting -/

/-- `_needs_more_time`, with the reading `clock` of the clock. -/
def needsMoreTime (startTime : ℤ) (duration : ℕ) (now : Option ℤ) (clock : ℤ) : Bool :=
  let timeDiff := now.getD clock - startTime
  timeDiff ≤ duration * 60 * 1000000

def notFlushed (maxWaitTime : ℕ) : Text :=
  "Data not flushed. Waited for ".toList ++ printInt maxWaitTime ++
    " minutes for data to flush out.".toList

/-- The loop of `_wait_until_data_flushed`, from its round `i` on. `du` prints `sizes i` in that
round, and the clock is read as `clock i` after it. The value is the time waited. -/
def waitLoop (sizes clock : ℕ → ℤ) (startTime : ℤ) (maxWaitTime : ℕ) (currentSize : ℤ) :
    ℕ → ℕ → ℤ → Except Failure ℤ
  | 0, _, _ => .error .outOfFuel
  | fuel + 1, i, flushedSize =>
      if currentSize = flushedSize then
        let flushedSize := sizes i
        if !needsMoreTime startTime maxWaitTime none (clock i) then
          .error (.testError (notFlushed maxWaitTime))
        else waitLoop sizes clock startTime maxWaitTime currentSize fuel (i + 1) flushedSize
      else .ok (clock i - startTime)

/-- `_wait_until_data_flushed`; `du` prints `size` at first. -/
def waitUntilDataFlushed (fuel : ℕ) (size : ℤ) (sizes clock : ℕ → ℤ) (startTime : ℤ)
    (maxWaitTime : ℕ) : Except Failure ℤ :=
  waitLoop sizes clock startTime maxWaitTime size fuel 0 size

/-! ## The run -/

structure Config where
  mountPoint : Text
  fileCount : ℤ
  writeSize : ℤ
  maxFlushTime : ℕ
  removePrevious : Bool
  oldCleanup : Bool

/-- A file written, and what there was at that time. -/
structure Write where
  fileName : Text
  size : ℤ
  sparseFile : Bool
  files : List Text
  deriving DecidableEq

/-- What is on the disk: whether the mount point exists and has something mounted, whether the sparse
file exists, and the files at the mount point. `writes` is what the test has written. -/
structure Disk where
  mountPoint : Bool
  mounted : Bool
  sparseFile : Bool
  files : List Text
  writes : List Write

/-- What the commands print and the clock shows after the file with this number is written. -/
structure Wait where
  startTime : ℤ
  size : ℤ
  sizes : ℕ → ℤ
  clock : ℕ → ℤ

abbrev ResultMap := AList fun _ : ℕ => ℤ

/-- The test of the mount point in `_check_parameters`. -/
def checkMountPoint (cfg : Config) (d : Disk) : Except Failure Disk :=
  if !d.mountPoint then .ok d
  else if !d.mounted && cfg.oldCleanup then
    if d.files = [] then .ok { d with mountPoint := false } else .error .osError
  else .error (.testError ("Mount point: ".toList ++ cfg.mountPoint ++ " already exists.".toList))

/-- `_check_parameters`. -/
def checkParameters (cfg : Config) (d : Disk) : Except Failure Disk := do
  let d ← checkMountPoint cfg d
  if ¬cfg.writeSize > 0 then
    .error (.testError "Write size should be a positive integer.".toList)
  else if ¬cfg.fileCount > 0 then
    .error (.testError "File count shoulde be a positive integer.".toList)
  else .ok { d with mountPoint := true }

/-- `_create_partition`: a new file system has no files. -/
def createPartition (d : Disk) : Disk := { d with sparseFile := true, mounted := true, files := [] }

/-- `os.path.join(destination, 'test_file_%s' % counter)`. -/
def fileName (cfg : Config) (counter : ℕ) : Text :=
  osPathJoin cfg.mountPoint ("test_file_".toList ++ printInt counter)

/-- `_write_data`. -/
def writeData (cfg : Config) (counter : ℕ) (d : Disk) : Disk :=
  let name := fileName cfg counter
  { d with
    files := if d.files.contains name then d.files else d.files ++ [name]
    writes := d.writes ++ [⟨name, cfg.writeSize, d.sparseFile, d.files⟩] }

/-- `os.remove(sparse_file)`. -/
def removeSparseFile (d : Disk) : Except Failure Disk :=
  if d.sparseFile then .ok { d with sparseFile := false } else .error .osError

/-- `_wait_until_data_flushed` in a run: `du` fails if there is no sparse file. -/
def awaitFlush (fuel : ℕ) (w : Wait) (maxWaitTime : ℕ) (d : Disk) : Except Failure ℤ :=
  if d.sparseFile then waitUntilDataFlushed fuel w.size w.sizes w.clock w.startTime maxWaitTime
  else .error .cmdError

/-- What is removed after a file. -/
def removeInstance (cfg : Config) (d : Disk) : Except Failure Disk :=
  if cfg.removePrevious then removeSparseFile d else .ok d

/-- The body of the loop of `run_once`. -/
def iteration (fuel : ℕ) (waits : ℕ → Wait) (cfg : Config) (counter : ℕ)
    (st : Disk × ResultMap) : Except Failure (Disk × ResultMap) := do
  let d := writeData cfg counter st.1
  let timeTaken ← awaitFlush fuel (waits counter) cfg.maxFlushTime d
  let d ← removeInstance cfg d
  return (d, st.2.insert counter (timeTaken / 1000000 % 86400))

/-- `while counter < file_count`. -/
def iterations (fuel : ℕ) (waits : ℕ → Wait) (cfg : Config) :
    ℕ → ℕ → Disk × ResultMap → Except Failure (Disk × ResultMap)
  | rounds, counter, st =>
      if (counter : ℤ) < cfg.fileCount then
        match rounds with
        | 0 => .error .outOfFuel
        | rounds + 1 => do
            let st ← iteration fuel waits cfg counter st
            iterations fuel waits cfg rounds (counter + 1) st
      else .ok st

/-- `run_once`. -/
def runOnce (fuel : ℕ) (waits : ℕ → Wait) (cfg : Config) (d : Disk) :
    Except Failure (Disk × ResultMap) := do
  let d ← checkParameters cfg d
  iterations fuel waits cfg fuel 1 (createPartition d, ∅)

/-- `_reset_device`, the end of `postprocess`. The status of `umount` is ignored. -/
def resetDevice (d : Disk) : Except Failure Disk := do
  let d ← removeSparseFile { d with mounted := false, files := [] }
  if d.mountPoint then .ok { d with mountPoint := false } else .error .osError

end AutotestClient.WbKupdate
