import AutotestClient.Model.Harness.Accounts

/-! # Waiting

The `tc_wait_for_*` functions, which look at a condition once a second. What they see is a
parameter, numbered from the first observation on. -/

namespace AutotestClient.Harness.Waiters

/-- Where a waiting loop stopped: the number of observations made and what is left of `n`. -/
structure Poll (σ : Type) where
  state : σ
  seen : ℕ
  left : ℕ

/-- What a function that waits returns, if it does not exit. -/
structure Waited where
  state : State
  status : ℕ
  seen : ℕ

/-- `((n>0))` -/
def Poll.status {σ : Type} (p : Poll σ) : ℕ := if 0 < p.left then 0 else 1

def Poll.waited (p : Poll State) : Waited := ⟨p.state, p.status, p.seen⟩

/-! ## Arguments -/

/-- A test, `tc_break_if_bad_rc $? m || exit` -/
def orExit (ok : Bool) (m : String) (s : State) : Except State State :=
  let (s, rc) := tcBreakIfBadRc (if ok then 0 else 1) [m] s
  if rc ≠ 0 then .error s else .ok s

/-- How long to wait. -/
def checkMax (funcname : String) (max : Option ℤ) (s : State) : Except State (ℕ × State) :=
  match max with
  | none => .ok (10, s)
  | some max => do
      let s ← orExit (0 < max)
        (funcname ++ ": Internal script error: " ++ toString max ++ " is not a positive integer.") s
      return (max.toNat, s)

/-! ## Loops -/

variable {σ : Type}

/-- `while test ; do ((--n)) || break ; say ; done` -/
def countFirst (test : ℕ → σ → σ × Bool) (say : ℕ → σ → σ) : ℕ → ℕ → σ → Poll σ
  -- not reached: the loop is left when `n` becomes 0
  | 0, i, s => ⟨s, i, 0⟩
  | n + 1, i, s =>
      let (s, goOn) := test i s
      if goOn then
        if n = 0 then ⟨s, i + 1, 0⟩ else countFirst test say n (i + 1) (say n s)
      else ⟨s, i + 1, n + 1⟩

/-- `while test ; do say ; ((--n)) || break ; done` -/
def sayFirst (test : ℕ → σ → σ × Bool) (say : ℕ → σ → σ) : ℕ → ℕ → σ → Poll σ
  -- not reached: the loop is left when `n` becomes 0
  | 0, i, s => ⟨s, i, 0⟩
  | n + 1, i, s =>
      let (s, goOn) := test i s
      if goOn then
        let s := say (n + 1) s
        if n = 0 then ⟨s, i + 1, 0⟩ else sayFirst test say n (i + 1) s
      else ⟨s, i + 1, n + 1⟩

/-! ## Files -/

def awaitFile (holds : ℕ → Bool) (file : String) : ℕ → ℕ → State → Poll State
  | 0, i, s => ⟨s, i, 0⟩
  | n + 1, i, s =>
      if holds i then ⟨s, i + 1, n + 1⟩
      else if n = 0 then ⟨s, i + 1, 0⟩
      else
        awaitFile holds file n (i + 1)
          (tcInfo ["Waiting for file \"" ++ file ++ "\" to appear (" ++ toString n ++ ")"] s)

/-- `tc_wait_for_file file max test`. `holds` are the results of the test. -/
def tcWaitForFile (file : String) (max : Option ℤ) (test : String) (holds : ℕ → Bool)
    (s : State) : Except State Waited := do
  let s ← orExit (file ≠ "") "tc_wait_for_file: Internal script error: called w/o file name." s
  let (max, s) ← checkMax "tc_wait_for_file" max s
  let s ← orExit (test ∈ ["", "size", "directory", "exist"])
    ("tc_wait_for_file: Internal script error: " ++ test ++ " is invalid argument.") s
  return (awaitFile holds file max 0 s).waited

/-- `tc_wait_for_no_file file max`. `exist` tells when there is such a file. -/
def tcWaitForNoFile (file : String) (max : Option ℤ) (exist : ℕ → Bool) (s : State) :
    Except State Waited := do
  let s ← orExit (file ≠ "") "tc_wait_for_no_file: Internal script error: called w/o file name." s
  let (max, s) ← checkMax "tc_wait_for_no_file" max s
  let say n s :=
    tcInfo ["Waiting for file \"" ++ file ++ "\" to go away (" ++ toString n ++ ")"] s
  return (countFirst (fun i s => (s, exist i)) say max 0 s).waited

/-- The loop of `tc_wait_for_file_text`, which counts before it looks. -/
def awaitText (contains : ℕ → Bool) (file text : String) : ℕ → ℕ → State → Poll State
  -- not reached: the loop is left when `n` becomes 0
  | 0, i, s => ⟨s, i, 0⟩
  | n + 1, i, s =>
      if n = 0 then ⟨s, i, 0⟩
      else if contains i then ⟨s, i + 1, n⟩
      else
        awaitText contains file text n (i + 1)
          (tcInfo ["Waiting for file \"" ++ file ++ "\" to contain \"" ++ text ++
            "\" (" ++ toString n ++ ")"] s)

/-- `tc_wait_for_file_text file text max`. One reading of the whole file is one observation;
those of `tc_wait_for_file` are not counted. -/
def tcWaitForFileText (file text : String) (max : Option ℤ) (exist contains : ℕ → Bool)
    (s : State) : Except State Waited := do
  let (max, s) ← checkMax "tc_wait_for_file_text" max s
  let w ← tcWaitForFile file (some max) "" exist s
  if w.status ≠ 0 then return ⟨w.state, w.status, 0⟩
  else return (awaitText contains file text max 0 w.state).waited

/-! ## Processes -/

/-- The loop over `WAIT_PIDS`, which returns at the first pid waited for in vain. -/
def forPids (await : ℕ → ℕ → State → Poll State) : List ℕ → ℕ → State → Waited
  | [], i, s => ⟨s, 0, i⟩
  | pid :: pids, i, s =>
      let p := await pid i s
      if p.status ≠ 0 then p.waited else forPids await pids p.seen p.state

/-- `tc_wait_for_pid pids max`. `shows` tells when `/proc/$pid/maps` has text. -/
def tcWaitForPid (pids : List ℕ) (max : Option ℤ) (shows : ℕ → ℕ → Bool) (s : State) :
    Except State Waited := do
  let s ← orExit (pids ≠ []) "tc_wait_for_pid: Internal script error: called w/o pid." s
  let (max, s) ← checkMax "tc_wait_for_pid" max s
  let say pid n s :=
    tcInfo ["waiting for pid " ++ toString pid ++ " to show (" ++ toString n ++ ")"] s
  return forPids (fun pid => sayFirst (fun i s => (s, !shows pid i)) (say pid) max) pids 0 s

/-- `tc_wait_for_no_pid pids max`. `runs` tells when there is a directory `/proc/$pid`. -/
def tcWaitForNoPid (pids : List ℕ) (max : Option ℤ) (runs : ℕ → ℕ → Bool) (s : State) :
    Except State Waited := do
  let s ← orExit (pids ≠ []) "tc_wait_for_no_pid: Internal script error: called w/o pid." s
  let (max, s) ← checkMax "tc_wait_for_no_pid" max s
  let say pid n s :=
    tcInfo ["waiting for pid " ++ toString pid ++ " to disappear (" ++ toString n ++ ")"] s
  return forPids (fun pid => sayFirst (fun i s => (s, runs pid i)) (say pid) max) pids 0 s

/-! ## Ports -/

/-- The state with `TC_PORT`, if that is set. -/
structure PortState where
  base : State
  tcPort : Option (List Char)

/-- `tc_find_port $port 1 $3`, which sets `TC_PORT` or unsets it and fails. -/
def findPort (find : ℕ → Option (List Char)) (i : ℕ) (s : PortState) : PortState × Bool :=
  ({ s with tcPort := find i }, (find i).isSome)

def PortState.info (m : String) (s : PortState) : PortState :=
  { s with base := tcInfo [m] s.base }

/-- `TC_PORT=$save_TC_PORT` and the status. -/
def restorePort (save : List Char) (p : Poll PortState) : Waited × Option (List Char) :=
  (⟨p.state.base, p.status, p.seen⟩, some save)

/-- `tc_wait_for_active_port port max family`. `find` is what the calls of `tc_find_port` leave in
`TC_PORT`. -/
def tcWaitForActivePort (port : ℤ) (max : Option ℤ) (find : ℕ → Option (List Char))
    (s : PortState) : Except State (Waited × Option (List Char)) := do
  let t ← orExit (0 < port) ("tc_wait_for_active_port: Internal script error: " ++ toString port ++
    " is an invalid port number") s.base
  let (n, t) ← checkMax "tc_wait_for_active_port" max t
  let save := s.tcPort.getD []
  let say n (s : PortState) := s.info
    ("Waiting for port " ++ toString port ++ " to be listened to (" ++ toString n ++ ")")
  return restorePort save (countFirst (findPort find) say n 0 ⟨t, s.tcPort⟩)

/-- `tc_wait_for_inactive_port port max family` -/
def tcWaitForInactivePort (port : ℤ) (max : Option ℤ) (find : ℕ → Option (List Char))
    (s : PortState) : Except State (Waited × Option (List Char)) := do
  let t ← orExit (0 < port) ("tc_wait_for_inactive_port: Internal script error: " ++
    toString port ++ " is an invalid port number") s.base
  let (n, t) ← checkMax "tc_wait_for_inactive_port" max t
  let save := s.tcPort.getD []
  let say n (s : PortState) := s.info
    ("Waiting for port " ++ toString port ++ " to be become free (" ++ toString n ++ ")")
  let test i s := (findPort find i s).map id (!·)
  return restorePort save (countFirst test say n 0 ⟨t, s.tcPort⟩)

end AutotestClient.Harness.Waiters
