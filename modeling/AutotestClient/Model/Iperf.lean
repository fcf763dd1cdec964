import AutotestClient.Shared.Numeral
import AutotestClient.Shared.Search
import Mathlib.Algebra.Order.Field.Rat
import Mathlib.Data.List.AList

/-! # iperf results

The client of `iperf/iperf.py`: the runs of `run_once`, and `postprocess`. Times and floats are
rationals. -/

namespace AutotestClient.Iperf

open Shared (Item digitsValue findall isDigitOf printInt)

abbrev Text := List Char

inductive Failure where
  /-- A command failed, and not because of the time. -/
  | cmdError (additionalText : Text)
  /-- `Mismatched number of results`. -/
  | testError
  | indexError
  | keyError
  | zeroDivisionError
  deriving DecidableEq

/-! ## The client -/

/-- The arguments of `run_once`, the address `self.ip` and the path of iperf with the options
`-y c -c`. -/
structure Test where
  serverIp : Text
  ip : Text
  clientPath : Text
  udp : Bool
  bidirectional : Bool
  testTime : ℕ

/-- What `run_parallel` gives, the standard outputs of `mpstat` and `iperf`. -/
structure Out where
  mpstat : Text
  iperf : Text
  deriving DecidableEq

/-- The two commands between two readings of the clock, or the additional text of a `CmdError`. -/
inductive Outcome where
  | done (out : Out) (t0 t1 : ℚ)
  | cmdError (additionalText : Text)
  deriving DecidableEq

structure State where
  results : List (Option Out)
  actualTimes : List ℚ
  deriving DecidableEq

def Test.args (t : Test) (numStreams : ℕ) : Text :=
  "-t ".toList ++ printInt t.testTime ++ " -P ".toList ++ printInt numStreams ++ [' '] ++
    (if t.udp then "-u ".toList else []) ++ (if t.bidirectional then "-d ".toList else [])

/-- The commands that run in parallel. -/
def Test.cmds (t : Test) (numStreams : ℕ) : List Text :=
  let interval : ℕ := max 1 (t.testTime / 5)
  ["mpstat -P ALL ".toList ++ printInt interval ++ " 5".toList,
    t.clientPath ++ [' '] ++ t.serverIp ++ [' '] ++ t.args numStreams]

/-- `runParallel` gets the commands and the timeout. -/
def client (runParallel : List Text → ℕ → Outcome) (t : Test) (numStreams : ℕ) (s : State) :
    Except Failure State :=
  match runParallel (t.cmds numStreams) (t.testTime + 60) with
  | .done out t0 t1 => .ok ⟨s.results ++ [some out], s.actualTimes ++ [t1 - t0]⟩
  | .cmdError additionalText =>
      if "within".toList <:+: additionalText then
        .ok ⟨s.results ++ [none], s.actualTimes ++ [1]⟩
      else .error (.cmdError additionalText)

/-- The runs from the `i`-th on. -/
def clients (runParallel : ℕ → List Text → ℕ → Outcome) (t : Test) :
    ℕ → List ℕ → State → Except Failure State
  | _, [], s => .ok s
  | i, numStreams :: streamList, s => do
      let s ← client (runParallel i) t numStreams s
      clients runParallel t (i + 1) streamList s

/-- `run_once` as the client, after `initialize`. -/
def runOnce (runParallel : ℕ → List Text → ℕ → Outcome) (t : Test) (streamList : List ℕ) :
    Except Failure State :=
  clients runParallel t 0 streamList ⟨[], []⟩

/-! ## The patterns -/

/-- `\d`. -/
def isDigit (c : Char) : Bool := isDigitOf 10 c

/-- `[0-9.]`. -/
def isDecimal (c : Char) : Bool := isDigit c || c = '.'

def tcpPattern : List (Item Char) :=
  [.group isDigit, .lit ',', .group isDecimal, .lit ',', .group isDigit, .lit ',',
    .group isDecimal, .lit ',', .group isDigit, .lit ',', .group isDigit, .lit ',',
    .group isDecimal, .lit '-', .group isDecimal, .lit ',', .group isDigit, .lit ',',
    .group isDigit]

def udpPattern : List (Item Char) :=
  tcpPattern ++ [.lit ',', .group isDecimal, .lit ',', .group isDigit, .lit ',', .group isDigit,
    .lit ',', .group isDecimal, .lit ',', .group isDigit]

inductive Field where
  | date | localIp | localPort | remoteIp | remotePort | id | start | stop | bytesTransfered
  | bandwidth | jitter | numErrorDgrams | numDgrams | percentErrorDgrams | numOutOfOrderDgrams
  deriving DecidableEq

def tcpKeys : List Field :=
  [.date, .localIp, .localPort, .remoteIp, .remotePort, .id, .start, .stop, .bytesTransfered,
    .bandwidth]

def udpKeys : List Field :=
  tcpKeys ++ [.jitter, .numErrorDgrams, .numDgrams, .percentErrorDgrams, .numOutOfOrderDgrams]

/-! ## Key-values -/

inductive Key where
  | cpuC | cpuCSys | cpuCHi | cpuCSi | intrsC
  | bandwidthS2C | bandwidthC2S | jitterS2C | jitterC2S
  | efficiencyC
  deriving DecidableEq

abbrev Keyval := AList fun _ : Key => ℚ

/-- What `process_mpstat` gives. -/
structure CpuStats where
  idle : ℚ
  sys : ℚ
  irq : ℚ
  soft : ℚ
  intr : ℚ

/-- `keyval[key]`. -/
def getItem (keyval : Keyval) (key : Key) : Except Failure ℚ :=
  match keyval.lookup key with
  | some value => .ok value
  | none => .error .keyError

/-- `stats[field]`. -/
def getField (stats : List (Field × Text)) (field : Field) : Except Failure Text :=
  match stats.lookup field with
  | some value => .ok value
  | none => .error .keyError

/-- `float` of digits and points. -/
def float? (text : Text) : Option ℚ :=
  let whole := text.takeWhile (· ≠ '.')
  let fraction := (text.dropWhile (· ≠ '.')).tail
  if '.' ∈ fraction ∨ whole ++ fraction = [] then none
  else some (digitsValue 10 (whole ++ fraction) / 10 ^ fraction.length)

/-! ## Sums -/

/-- `runs`, a list for each of its keys. -/
abbrev Runs := Key → List ℚ

def runKeys : List Key := [.bandwidthS2C, .bandwidthC2S, .jitterS2C, .jitterC2S]

def Runs.append (runs : Runs) (key : Key) (value : ℚ) : Runs :=
  Function.update runs key (runs key ++ [value])

/-- `SERVER_PORT`. -/
def serverPort : Text := "5001".toList

/-- The body of the loop over the matches. -/
def addMatch (ip : Text) (keys : List Field) (runs : Runs) (groups : List Text) :
    Except Failure Runs := do
  let stats := keys.zip groups
  let localIp ← getField stats .localIp
  let localPort ← getField stats .localPort
  let bandwidth ← getField stats .bandwidth
  -- the flow direction
  let (bandwidthKey, jitterKey) : Key × Key :=
    if localIp = ip ∧ localPort = serverPort then (.bandwidthS2C, .jitterS2C)
    else (.bandwidthC2S, .jitterC2S)
  let runs := runs.append bandwidthKey (digitsValue 10 bandwidth)
  match (stats.lookup .jitter).bind float? with
  | some jitter => .ok (runs.append jitterKey jitter)
  | none => .ok runs

/-- `keyval[key] = sum(runs[key])` where there are values. -/
def addSums (runs : Runs) (keyval : Keyval) : Keyval :=
  (runKeys.filter fun key => runs key ≠ []).foldl (fun keyval key =>
    keyval.insert key (runs key).sum) keyval

/-- The body of the loop that scales the bandwidths. -/
def scaleKey (runs : Runs) (scale : ℚ) (acc : Keyval × ℚ) (key : Key) :
    Except Failure (Keyval × ℚ) :=
  if runs key ≠ [] then do
    let value ← getItem acc.1 key
    .ok (acc.1.insert key (value * scale), acc.2 + value * scale)
  else .ok acc

/-- `a / b`. -/
def divide (a b : ℚ) : Except Failure ℚ :=
  if b = 0 then .error .zeroDivisionError else .ok (a / b)

def cpuKeyval (cpuStats : CpuStats) : Keyval :=
  (((((∅ : Keyval).insert .cpuC (100 - cpuStats.idle)).insert .cpuCSys cpuStats.sys).insert
    .cpuCHi cpuStats.irq).insert .cpuCSi cpuStats.soft).insert .intrsC cpuStats.intr

/-! ## Postprocessing -/

/-- `stdout.split('\n', 1)[1]`. -/
def dropFirstLine (stdout : Text) : Except Failure Text :=
  match stdout.dropWhile (· ≠ '\n') with
  | [] => .error .indexError
  | _ :: rest => .ok rest

/-- What is searched, in UDP mode without the first line. -/
def searched (udp : Bool) (stdout : Text) : Except Failure Text :=
  if udp then dropFirstLine stdout else .ok stdout

/-- The key-values of a run that was not too slow. -/
def outKeyval (processMpstat : Text → ℕ → CpuStats) (t : Test) (out : Out)
    (actualTime : Except Failure ℚ) : Except Failure Keyval := do
  let keyval := cpuKeyval (processMpstat out.mpstat 5)
  let stdout ← searched t.udp out.iperf
  let regex := if t.udp then udpPattern else tcpPattern
  let keys := if t.udp then udpKeys else tcpKeys
  let runs ← (findall regex stdout).foldlM (addMatch t.ip keys) fun _ => []
  let keyval := addSums runs keyval
  let actualTime ← actualTime
  let scale ← divide t.testTime actualTime
  let (keyval, totalBw) ← [Key.bandwidthS2C, .bandwidthC2S].foldlM (scaleKey runs scale)
    (keyval, 0)
  let cpu ← getItem keyval .cpuC
  if cpu ≠ 0 then do
    let efficiency ← divide totalBw cpu
    .ok (keyval.insert .efficiencyC efficiency)
  else .ok (keyval.insert .efficiencyC totalBw)

/-- The `i`-th entry of a list. -/
def index {α : Type} (xs : List α) (i : ℕ) : Except Failure α :=
  match xs[i]? with
  | some x => .ok x
  | none => .error .indexError

def iterationKeyval (processMpstat : Text → ℕ → CpuStats) (t : Test) (s : State) (i : ℕ) :
    Except Failure Keyval := do
  match ← index s.results i with
  | none => .ok ∅
  | some out =>
      if out.iperf = [] then .ok ∅
      else outKeyval processMpstat t out (index s.actualTimes i)

/-- What `write_iteration_keyval` gets. -/
structure Iteration where
  streamCount : ℕ
  keyval : Keyval

/-- The iterations from the `i`-th on that are written, and the failure that ends the loop. -/
def writeIterations (processMpstat : Text → ℕ → CpuStats) (t : Test) (s : State) :
    ℕ → List ℕ → List Iteration × Option Failure
  | _, [] => ([], none)
  | i, streams :: streamList =>
      match iterationKeyval processMpstat t s i with
      | .error f => ([], some f)
      | .ok keyval =>
          let (written, failure) := writeIterations processMpstat t s (i + 1) streamList
          (⟨streams, keyval⟩ :: written, failure)

def postprocess (processMpstat : Text → ℕ → CpuStats) (t : Test) (streamList : List ℕ)
    (s : State) : List Iteration × Option Failure :=
  if streamList.length ≠ s.results.length then ([], some .testError)
  else writeIterations processMpstat t s 0 streamList

end AutotestClient.Iperf
