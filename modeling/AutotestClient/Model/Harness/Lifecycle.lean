import AutotestClient.Model.Harness.Accounts
import Mathlib.Logic.Function.Basic

/-! # Life cycle of a linux-tools testcase

`tc_setup`, the actions of a testcase, and `tc_internal_cleanup`, which the exit trap
runs. The commands `cp`, `kill` and `rm` of the cleanup succeed. -/

namespace AutotestClient.Harness

/-- `TC_SAVE_NET` -/
def tcSaveNet : List NetFile := [.hosts, .resolvConf]

/-! ## Setup -/

/-- What `tc_setup` finds: the shell's pid, `TST_TOTAL`, whether `$TMP` is a directory, the
networking files, the account databases and the running processes. -/
structure Host where
  pid : ℕ
  tstTotal : ℤ
  tmpIsDir : Bool
  net : NetFile → String
  users : List String
  groups : List String
  alive : List ℕ

/-- The state after the body of `tc_setup`: the networking files are saved, `TC_SAVE` is
made, and `TC_MYTMP` too if there is no `$TMP`. -/
def tcSetup (h : Host) : State where
  pid := h.pid
  tcname := "tc_local_setup"
  tstCount := 0
  tstTotal := h.tstTotal
  console := ⟨[.info 0 "tc_setup: complete", .info 0 "Start"], "", "", false⟩
  results := ⟨0, 0, 0, 0, [], []⟩
  users := ⟨[], 0, none, h.users⟩
  groups := ⟨[], 0, none, h.groups⟩
  tempPasswd := none
  tempHome := none
  sleeperPid := none
  sleeperPids := []
  alive := h.alive
  net := h.net
  saved := h.net
  capLogPid := none
  tcSave := true
  tcMytmp := !h.tmpIsDir

/-! ## The testcase -/

/-- What `tc_sleeper` meets: whether the sleeper starts and under which pid, and how the
two waits for it end. -/
structure Sleeper where
  starts : Bool
  pid : ℕ
  reported : Answer
  reportedErr : String
  shown : Answer
  shownErr : String

def State.appendStderr (s : State) (text : String) : State :=
  { s with console := { s.console with stderr := s.console.stderr ++ text } }

/-- `tc_sleeper name`. The result is the status, or `none` if the shell exits. -/
def tcSleeper (e : Sleeper) (name : String) (s : State) : State × Option ℕ :=
  let s := { s with sleeperPid := none }
  let (s, rc) := tcBreakIfBad (if name ≠ "" then 0 else 1)
    ["Must provide name for sleeper process to tc_sleeper"] s
  if rc ≠ 0 then (s, none)
  else
    let s := if e.starts then { s with alive := e.pid :: s.alive } else s
    let (s, rc) := tcBreakIfBad e.reported.rc
      ["tc_sleeper: " ++ name ++ " did not report its pid"]
      ((s.appendStdout e.reported.output).appendStderr e.reportedErr)
    if rc ≠ 0 then (s, none)
    else
      let s :=
        { s with
          sleeperPid := some e.pid
          sleeperPids := .text "tc_sleeper:" :: .pid e.pid :: s.sleeperPids }
      let (s, rc) := tcBreakIfBad e.shown.rc
        ["tc_sleeper: pid " ++ toString e.pid ++ " for sleeper process did not show"]
        ((s.appendStdout e.shown.output).appendStderr e.shownErr)
      if rc ≠ 0 then (s, none) else (s, some 0)

/-- What a testcase does between `tc_setup` and its exit. -/
inductive Action where
  | call (c : Call)
  /-- A command of the testcase leaves these texts in `$stdout` and `$stderr`. -/
  | files (stdout stderr : String)
  | sleeper (e : Sleeper) (name : String)
  | addUser (e : AddUser) (name : String)
  | addGroup (tool : Tool) (a : Answer) (name : String)
  /-- The testcase overwrites a networking file. -/
  | overwrite (f : NetFile) (content : String)

/-- The state after an action, and whether the action exits. -/
def Action.run (s : State) : Action → State × Bool
  | .call c => (c.run s, false)
  | .files stdout stderr => (s.setFiles stdout stderr, false)
  | .sleeper e name => ((tcSleeper e name s).1, (tcSleeper e name s).2.isNone)
  | .addUser e name => ((tcAddUserOrBreak e name s).1, (tcAddUserOrBreak e name s).2.isNone)
  | .addGroup tool a name => ((tcAddGroupOrBreak tool a name s).1, false)
  | .overwrite f content => ({ s with net := Function.update s.net f content }, false)

/-- The state at the exit of a testcase that does these actions and then exits, unless one
of them exits before. -/
def runActions : List Action → State → State
  | [], s => s
  | a :: as, s => if (a.run s).2 then (a.run s).1 else runActions as (a.run s).1

/-! ## Cleanup -/

/-- What the cleanup meets: whether the watchdog still runs, the calls of the testcase's
own `tc_local_cleanup` (none by default), the end of the log capture, and the commands
for accounts. -/
structure Cleanup where
  watchdogAlive : Bool
  localCleanup : List Call
  capLogStopped : Answer
  userTool : Tool
  userdel : ℕ → Answer
  groupTool : Tool
  groupdel : ℕ → Answer

def checkWatchdog (alive : Bool) (s : State) : State :=
  if alive then s
  else
    (tcFailIfBad 88 ["watchdog timed out!"]
      { s with results := { s.results with watchdog := 88 } }).1

def tcLocalCleanup (calls : List Call) (s : State) : State :=
  runCalls calls (State.clearFiles { s with tcname := "tc_local_cleanup" })

def restoreNet (s : State) : State :=
  if s.tcSave then
    tcSaveNet.foldl (fun s f => { s with net := Function.update s.net f (s.saved f) }) s
  else s

/-- One round of the loop over `$TC_SLEEPER_PIDS`. A word that is no pid has no directory
in `/proc`. -/
def killSleeper (s : State) : Word → State
  | .text _ => s
  | .pid p => if p ∈ s.alive then { s with alive := s.alive.filter (· ≠ p) } else s

def killSleepers (s : State) : State := s.sleeperPids.foldl killSleeper s

/-- `tc_cap_log_stop`, which exits with the status of the failed wait. -/
def tcCapLogStop (a : Answer) (s : State) : State × Option ℕ :=
  match s.capLogPid with
  | none => (s, none)
  | some p =>
      let (s, rc) := tcBreakIfBadRc a.rc
        ["tc_cap_log_stop: Internal script error: Could not kill tc_cap_log_pid=" ++ toString p]
        { s with alive := if a.rc = 0 then s.alive.filter (· ≠ p) else s.alive }
      if rc ≠ 0 then (s, some rc) else ({ s with capLogPid := none }, none)

def removeDirectories (s : State) : State :=
  { s with tcMytmp := false, tstCount := 0, tcSave := false }

/-- The argument of the last `exit`. -/
def Results.verdict (r : Results) : ℤ :=
  if r.watchdog ≠ 0 then r.watchdog
  else if r.final ≠ 0 then r.final
  else if r.brok ≠ 0 then r.brok
  else if r.warn ≠ 0 then r.warn
  else 0

/-- The part of `tc_internal_cleanup` after the test for cases that did not run. -/
def releaseResources (e : Cleanup) (s : State) : State × ℕ :=
  let s := killSleepers (restoreNet s)
  match tcCapLogStop e.capLogStopped s with
  | (s, some rc) => (s, rc)
  | (s, none) =>
      let s := tcDelUserOrBreak e.userTool e.userdel "" s
      let s := (tcDelGroupOrBreak e.groupTool e.groupdel "" s).1
      let s := tcInfo ["Finish"] (removeDirectories s)
      (s, exitCode s.results.verdict)

/-- The part of `tc_internal_cleanup` before that test. -/
def beginCleanup (e : Cleanup) (s : State) : State :=
  tcLocalCleanup e.localCleanup (checkWatchdog e.watchdogAlive s)

/-- The state after the cleanup and the exit status of the testcase. -/
def tcInternalCleanup (e : Cleanup) (s : State) : State × ℕ :=
  let s := beginCleanup e s
  if s.tstCount < s.tstTotal then
    (({ s with tstCount := s.tstCount + 1 }).echo (.text "Remaining cases broken"), 1)
  else releaseResources e s

end AutotestClient.Harness
