import Mathlib.Data.Int.Notation
import Mathlib.Data.Nat.Notation

/-! # Verdict helpers of the linux-tools harness

The shell variables and files of `linux-tools/shared/tc_utils.source`, and the functions
with which a testcase reports. A function that returns a status gives the state after it
and that status. Names of temporary users, groups and processes are single words. -/

namespace AutotestClient.Harness

/-! ## State -/

/-- What the harness prints. `name` is `TCNAME` and `count` is `TST_COUNT` at that time;
the date that follows some of the lines is left out. -/
inductive Line where
  /-- `" INFO $TST_COUNT: $m"` -/
  | info (count : ℤ) (m : String)
  /-- `" WARN $TST_COUNT: $m"` -/
  | warn (count : ℤ) (m : String)
  /-- `" PASS $TST_COUNT: $TCNAME"` -/
  | pass (count : ℤ) (name : String)
  /-- `"FAIL $TST_COUNT: $TCNAME: $2 at $(date)"` -/
  | fail (count : ℤ) (name m : String)
  /-- `"BROK $TST_COUNT: $TCNAME: $2 at $(date)"` -/
  | brok (count : ℤ) (name m : String)
  /-- `" CONF $TST_COUNT: $TCNAME: $1 at $(date)"` -/
  | conf (count : ℤ) (name m : String)
  /-- Output of `cat` or of a plain `echo`. -/
  | text (m : String)
  deriving DecidableEq

/-- Output so far, newest line first, the files behind `$stdout` and `$stderr`, and
whether `$stderr` is `/dev/null` at the moment. -/
structure Console where
  lines : List Line
  stdout : String
  stderr : String
  stderrIsNull : Bool
  deriving DecidableEq

/-- `tc_final_result` and its siblings, with `TC_FAILS` and `TC_BROKS`. -/
structure Results where
  final : ℤ
  brok : ℤ
  warn : ℤ
  watchdog : ℤ
  fails : List String
  broks : List String
  deriving DecidableEq

/-- Accounts of one kind: the names in `TC_TEMP_USERS` or `TC_TEMP_GROUPS`, the counter
of generated names, the name handed back to the testcase, and the names in the account
database. -/
structure Registry where
  listed : List String
  ndx : ℤ
  temp : Option String
  database : List String
  deriving DecidableEq

/-- The files of `TC_SAVE_NET`. -/
inductive NetFile where
  | hosts | resolvConf
  deriving DecidableEq

/-- A word of `TC_SLEEPER_PIDS`. -/
inductive Word where
  | text (w : String)
  | pid (p : ℕ)
  deriving DecidableEq

structure State where
  pid : ℕ
  tcname : String
  tstCount : ℤ
  tstTotal : ℤ
  console : Console
  results : Results
  users : Registry
  groups : Registry
  tempPasswd : Option String
  tempHome : Option String
  sleeperPid : Option ℕ
  sleeperPids : List Word
  /-- Processes with a directory in `/proc`. -/
  alive : List ℕ
  net : NetFile → String
  /-- The copies in `TC_SAVE`. -/
  saved : NetFile → String
  /-- Content of `TC_SAVE/tc_cap_log_pid`, if that file exists. -/
  capLogPid : Option ℕ
  /-- The directory `TC_SAVE` exists. -/
  tcSave : Bool
  /-- The directory `TC_MYTMP` exists. -/
  tcMytmp : Bool

/-! ## Output -/

/-- The status of `return rc` and `exit rc`. -/
def exitCode (rc : ℤ) : ℕ := (rc % 256).toNat

/-- `${m//\%/%%%%}` -/
def escapePercent (m : String) : String :=
  String.ofList (m.toList.flatMap fun c => if c = '%' then List.replicate 4 '%' else [c])

def State.echo (s : State) (l : Line) : State :=
  { s with console := { s.console with lines := l :: s.console.lines } }

/-- `[ -s $stderr ]` -/
def State.stderrNonempty (s : State) : Bool :=
  !s.console.stderrIsNull && s.console.stderr ≠ ""

def tcInfo (ms : List String) (s : State) : State :=
  ms.foldl (fun s m => s.echo (.info s.tstCount (escapePercent m))) s

def tcWarn (ms : List String) (s : State) : State :=
  let s := ms.foldl (fun s m => s.echo (.warn s.tstCount (escapePercent m))) s
  { s with results := { s.results with warn := 99 } }

/-- `cat` of a file between two lines that say which it is. -/
def showFile (file text : String) (s : State) : State :=
  let s := tcInfo ["============= " ++ file ++ " follows ============="] s
  let s := (s.echo (.text text)).echo (.text "")
  tcInfo ["============== " ++ file ++ " above =============="] s

/-- The part of `tc_internal_dump` that shows and empties `$stdout`. -/
def dumpStdout (s : State) : State :=
  if s.console.stdout ≠ "" then
    let s := showFile "stdout" s.console.stdout s
    { s with console := { s.console with stdout := "" } }
  else s

/-- The part of `tc_internal_dump` that shows and empties `$stderr`. -/
def dumpStderr (s : State) : State :=
  if s.stderrNonempty then
    let s := showFile "stderr" s.console.stderr s
    { s with console := { s.console with stderr := "" } }
  else s

def tcInternalDump (rc : ℤ) (ms : List String) (s : State) : State × ℕ :=
  let s := tcInfo (ms ++ ["rc=" ++ toString rc]) s
  let s := dumpStdout s
  let rc := if s.stderrNonempty && rc = 0 then 255 else rc
  (dumpStderr s, exitCode rc)

/-! ## Verdicts -/

/-- What the helpers print around a FAIL or a BROK. `ms` are the arguments after the
return code: the first is part of the verdict line, the others are dumped. -/
def reportFailure (line : Line) (rc : ℤ) (ms : List String) (s : State) : State × ℕ :=
  let s := tcInfo ["BEGIN FAILURE INFO STAGE " ++ toString s.tstCount] s
  let s := s.echo line
  let (s, rc) := tcInternalDump rc (ms.drop 1) s
  (tcInfo ["END FAILURE INFO STAGE " ++ toString s.tstCount] s, rc)

def State.recordFail (s : State) : State :=
  { s with
    results :=
      { s.results with fails := s.results.fails ++ [s.tcname], final := s.results.final + 1 } }

def State.recordBrok (s : State) : State :=
  { s with results := { s.results with broks := s.results.broks ++ [s.tcname], brok := -1 } }

def tcPassOrFail (rc : ℤ) (ms : List String) (s : State) : State × ℕ :=
  if rc = 0 ∧ s.stderrNonempty = false then (s.echo (.pass s.tstCount s.tcname), 0)
  else reportFailure (.fail s.tstCount s.tcname (ms.headD "")) rc ms s.recordFail

def tcFailIfBad (rc : ℤ) (ms : List String) (s : State) : State × ℕ :=
  if rc ≠ 0 ∨ s.stderrNonempty = true then tcPassOrFail rc ms s else (s, 0)

def tcBreakIfBad (rc : ℤ) (ms : List String) (s : State) : State × ℕ :=
  if rc = 0 ∧ s.stderrNonempty = false then (s, 0)
  else reportFailure (.brok s.tstCount s.tcname (ms.headD "")) rc ms s.recordBrok

/-- `prev` is `$?` on entry. -/
def tcFail (prev : ℕ) (ms : List String) (s : State) : State × ℕ :=
  tcPassOrFail (if prev ≠ 0 then prev else 199) ms s

def tcBreak (prev : ℕ) (ms : List String) (s : State) : State × ℕ :=
  tcBreakIfBad (if prev ≠ 0 then prev else -1) ms s

def tcPass (s : State) : State × ℕ := tcPassOrFail 0 [] s

def tcConf (prev : ℕ) (ms : List String) (s : State) : State × ℕ :=
  let s := tcInfo ["BEGIN TCONF INFO STAGE " ++ toString s.tstCount] s
  let s := s.echo (.conf s.tstCount s.tcname (ms.headD ""))
  let (s, _) := tcInternalDump prev (ms.drop 1) s
  (tcInfo ["END TCONF INFO STAGE " ++ toString s.tstCount] s, 0)

/-- `(exit $rc)` hands the return code to `tc_conf`; what comes back is the argument. -/
def tcConfIfBad (rc : ℤ) (ms : List String) (s : State) : State × ℕ :=
  if rc = 0 ∧ s.stderrNonempty = false then (s, 0)
  else ((tcConf (exitCode rc) ms s).1, exitCode rc)

def State.setStderrNull (s : State) (null : Bool) : State :=
  { s with console := { s.console with stderrIsNull := null } }

/-- Runs a helper with `$stderr` set to `/dev/null`, and puts it back. -/
def ignoringStderr (f : State → State × ℕ) (s : State) : State × ℕ :=
  let (s', rc) := f (s.setStderrNull true)
  (s'.setStderrNull s.console.stderrIsNull, rc)

def tcFailIfBadRc (rc : ℤ) (ms : List String) (s : State) : State × ℕ :=
  ignoringStderr (tcFailIfBad rc ms) s

/-- The definition in force once the file is sourced, which is the second of the two: it
calls `tc_fail_if_bad`. -/
def tcBreakIfBadRc (rc : ℤ) (ms : List String) (s : State) : State × ℕ :=
  ignoringStderr (tcFailIfBad rc ms) s

def tcConfIfBadRc (rc : ℤ) (ms : List String) (s : State) : State × ℕ :=
  ignoringStderr (tcConfIfBad rc ms) s

def State.clearFiles (s : State) : State :=
  { s with console := { s.console with stdout := "", stderr := "" } }

def tcRegister (name : String) (s : State) : State :=
  State.clearFiles { s with tcname := escapePercent name, tstCount := s.tstCount + 1 }

/-! ## Calls of a testcase -/

/-- The reporting functions with their arguments. -/
inductive Helper where
  | register (name : String)
  | passOrFail (rc : ℤ) (ms : List String)
  | failIfBad (rc : ℤ) (ms : List String)
  | breakIfBad (rc : ℤ) (ms : List String)
  | failIfBadRc (rc : ℤ) (ms : List String)
  | breakIfBadRc (rc : ℤ) (ms : List String)
  | fail (prev : ℕ) (ms : List String)
  | brok (prev : ℕ) (ms : List String)
  | pass
  | warn (ms : List String)

def Helper.run (s : State) : Helper → State
  | .register name => tcRegister name s
  | .passOrFail rc ms => (tcPassOrFail rc ms s).1
  | .failIfBad rc ms => (tcFailIfBad rc ms s).1
  | .breakIfBad rc ms => (tcBreakIfBad rc ms s).1
  | .failIfBadRc rc ms => (tcFailIfBadRc rc ms s).1
  | .breakIfBadRc rc ms => (tcBreakIfBadRc rc ms s).1
  | .fail prev ms => (tcFail prev ms s).1
  | .brok prev ms => (tcBreak prev ms s).1
  | .pass => (tcPass s).1
  | .warn ms => tcWarn ms s

/-- A call together with what the testcase has left in the two files before it. -/
structure Call where
  stdout : String
  stderr : String
  helper : Helper

def State.setFiles (s : State) (stdout stderr : String) : State :=
  { s with console := { s.console with stdout := stdout, stderr := stderr } }

def Call.run (s : State) (c : Call) : State := c.helper.run (s.setFiles c.stdout c.stderr)

def runCalls (calls : List Call) (s : State) : State := calls.foldl Call.run s

end AutotestClient.Harness
