import AutotestClient.Model.Harness.Waiters

/-! # Services and mail

The `tc_service_*` functions, the waits for a service, and the waits for mail. What the commands
that look at a service or a mailbox answer is a parameter, numbered from the first look on. -/

namespace AutotestClient.Harness.Services

open Waiters

/-! ## Services -/

/-- How a command ends that has its output in `$stdout` and `$stderr`. -/
structure Command where
  rc : ℕ
  stdout : String
  stderr : String
  rc_lt : rc < 256

/-- What the functions meet. -/
structure Host where
  /-- There is an `/etc/*-release` that has `ubuntu` in it. -/
  ubuntu : Bool
  /-- `start`, `restart` or `stop`. -/
  command : Command
  /-- `service X status` or `systemctl status X` succeeds. -/
  isUp : ℕ → Bool
  /-- `service X X` or `systemctl X status` succeeds. -/
  garbled : ℕ → Bool

/-- `tc_break_if_bad $rc m || exit` -/
def orBreak (rc : ℕ) (m : String) (s : State) : Except State State :=
  let (s, rc) := tcBreakIfBad rc [m] s
  if rc ≠ 0 then .error s else .ok s

/-- The test for the name of the service. -/
def checkService (funcname service : String) (s : State) : Except State State :=
  orExit (service ≠ "") (funcname ++ ": Internal script error: called w/o service.") s

/-- `while test ; do tc_info say ; ((--n)) || break ; sleep 1 ; done ; ((n>0))` -/
def awaitService (test : ℕ → Bool) (say : String) (n : ℕ) (s : State) : Waited :=
  (sayFirst (fun i s => (s, test i)) (fun _ => tcInfo [say]) n 0 s).waited

/-- `tc_wait_for_service service max` -/
def tcWaitForService (h : Host) (service : String) (max : Option ℤ) (s : State) :
    Except State Waited := do
  let s ← checkService "tc_wait_for_service" service s
  let (n, s) ← checkMax "tc_wait_for_service" max s
  let s := tcInfo ["checking if service " ++ service ++ " is up"] s
  return awaitService (fun i => !h.isUp i) ("waiting for service " ++ service ++ " to be up") n s

/-- The test of the loops that wait for a service to be down. -/
def Host.stillUp (h : Host) (i : ℕ) : Bool := if h.ubuntu then h.garbled i else h.isUp i

/-- `tc_wait_for_no_service service max` -/
def tcWaitForNoService (h : Host) (service : String) (max : Option ℤ) (s : State) :
    Except State Waited := do
  let s ← checkService "tc_wait_for_no_service" service s
  let (n, s) ← checkMax "tc_wait_for_no_service" max s
  let s := tcInfo ["checking if service " ++ service ++ " is down"] s
  return awaitService h.stillUp ("waiting for service " ++ service ++ " to be down") n s

/-- What starting and restarting have in common. -/
def startAndWait (funcname doing : String) (h : Host) (service : String) (max : Option ℤ)
    (s : State) : Except State Waited := do
  let s ← checkService funcname service s
  let s := tcInfo [doing ++ " the service " ++ service] s
  let s ← orBreak h.command.rc (funcname ++ ": " ++ service ++ " failed to start")
    (s.setFiles h.command.stdout h.command.stderr)
  tcWaitForService h service max s

def tcServiceStartAndWait : Host → String → Option ℤ → State → Except State Waited :=
  startAndWait "tc_service_start_and_wait" "starting"

def tcServiceRestartAndWait : Host → String → Option ℤ → State → Except State Waited :=
  startAndWait "tc_service_restart_and_wait" "restarting"

/-- `tc_service_stop_and_wait service max`, which looks at the time first. -/
def tcServiceStopAndWait (h : Host) (service : String) (max : Option ℤ) (s : State) :
    Except State Waited := do
  let (n, s) ← checkMax "tc_service_stop_and_wait" max s
  let s ← checkService "tc_service_stop_and_wait" service s
  let s := tcInfo ["stopping the service " ++ service] s
  let s ← orBreak h.command.rc ("tc_service_stop_and_wait: " ++ service ++ " failed to stop")
    (s.setFiles h.command.stdout h.command.stderr)
  let s := tcInfo ["checking if service " ++ service ++ " is stopped"] s
  return awaitService h.stillUp ("waiting for service " ++ service ++ " to be stopped") n s

/-- `tc_service_status service` -/
def tcServiceStatus (status : Command) (service : String) (s : State) :
    Except State (State × ℕ) := do
  let s ← checkService "tc_service_status" service s
  let s := tcInfo ["checking the status of the service " ++ service] s
  let s := s.setFiles status.stdout status.stderr
  if status.rc = 0 then return (tcInfo [service ++ " is active (running)"] s, status.rc)
  else return (tcInfo [service ++ " is inactive (dead)"] s, status.rc)

/-! ## Mail -/

/-- `while test ; do ((--n)) || break ; … sleep 1 ; done`, with the looks made and what is left
of `n`. `none` is a loop that has run out of its fuel. -/
def awaitMail (test : ℕ → Bool) : ℕ → ℕ → ℤ → Option (ℕ × ℤ)
  | 0, _, _ => none
  | fuel + 1, i, n =>
      if test i then
        if n - 1 = 0 then some (i + 1, 0) else awaitMail test fuel (i + 1) (n - 1)
      else some (i + 1, n)

/-- The arguments of the waits for mail: their number, and the second one. -/
def checkMail (funcname : String) (nargs : ℕ) (max : Option ℤ) (default : ℤ) (s : State) :
    Except State (ℤ × State) := do
  let s ← orExit (nargs = 1 ∨ nargs = 2)
    ("Internal testcase error wrong nbr args to " ++ funcname) s
  let n := max.getD default
  let s ← orExit (n ≠ 0) ("Internal testcase error: " ++ (max.map toString).getD "" ++
    " is not valid integer in " ++ funcname) s
  return (n, s)

/-- `((n>0))` -/
def mailStatus (p : ℕ × ℤ) : ℕ := if 0 < p.2 then 0 else 1

/-- `tc_wait_for_mail userid max`; `arrived` tells when `mail -e` succeeds. -/
def tcWaitForMail (arrived : ℕ → Bool) (nargs : ℕ) (max : Option ℤ) (fuel : ℕ) (s : State) :
    Except State (Option (State × ℕ × ℕ)) := do
  let (n, s) ← checkMail "tc_wait_for_mail" nargs max 120 s
  return (awaitMail (fun i => !arrived i) fuel 0 n).map fun p => (s, p.1, mailStatus p)

/-- `tc_wait_for_no_mail userid max`, which deletes the mail between two looks; `some` tells when
`mail -e` succeeds. -/
def tcWaitForNoMail (some : ℕ → Bool) (nargs : ℕ) (max : Option ℤ) (fuel : ℕ) (s : State) :
    Except State (Option (State × ℕ × ℕ)) := do
  let (n, s) ← checkMail "tc_wait_for_no_mail" nargs max 60 s
  return (awaitMail some fuel 0 n).map fun p => (s, p.1, mailStatus p)

end AutotestClient.Harness.Services
