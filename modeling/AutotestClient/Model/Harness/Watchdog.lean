import AutotestClient.Model.Harness.Arrays
import AutotestClient.Shared.Numeral

/-! # The watchdog

The script that `tc_watchdog` writes, from the moment its `sleep` has run out. The diagnostics it
prints before it kills anything are left out. -/

namespace AutotestClient.Harness

open Shared

/-- The text of a process number. -/
def decimal (n : ℕ) : List Char := Nat.toDigits 10 n

/-! ## The process table -/

structure Process where
  pid : ℕ
  ppid : ℕ
  deriving DecidableEq

/-- The widths of the two columns of `ps`. Longer numbers take the room they need. -/
structure Columns where
  pid : ℕ
  ppid : ℕ

/-- Two right-aligned columns. -/
def Columns.line (w : Columns) (pid ppid : List Char) : List Char :=
  pid.leftpad w.pid ' ' ++ ' ' :: ppid.leftpad w.ppid ' '

/-- `ps -eo pid,ppid` -/
def ps (w : Columns) (table : List Process) : List (List Char) :=
  w.line "PID".toList "PPID".toList :: table.map fun p => w.line (decimal p.pid) (decimal p.ppid)

/-! ## Selection of rows -/

/-- The pattern at the beginning of a text. -/
def matchesHere (word : List Char) : List Char → Bool
  | [] => false
  | c :: rest =>
      !isDigitOf 10 c && word.isPrefixOf rest && (rest.drop word.length).head?.any (!isDigitOf 10 ·)

/-- `grep "\([^0-9]$PID[^0-9]\)"` on one line. -/
def grepPid (word : List Char) : List Char → Bool
  | [] => false
  | c :: rest => matchesHere word (c :: rest) || grepPid word rest

/-! ## Signals -/

inductive Event where
  /-- `kill $pid` -/
  | kill (pid : List Char)
  /-- `kill -9 $pid` -/
  | kill9 (pid : List Char)
  | echo (text : List Char)
  deriving DecidableEq

/-- `kill $pid || kill -9 $pid`, where `fails` says which of the first commands fail. -/
def killHard (fails : List Char → Bool) (pid : List Char) : List Event :=
  if fails pid then [.kill pid, .kill9 pid] else [.kill pid]

/-- One round of the loop over the rows. -/
def killChild (fails : List Char → Bool) (watched : List Char) (row : List Char) : List Event :=
  match readFields isBlank 1 row with
  | [pid, ppid] =>
      if ppid = watched then
        killHard fails pid ++ [.echo ("watchdog killed child process ".toList ++ pid)]
      else []
  | _ => []

/-- The end of the generated script for the process `pid`. The loop is skipped if `ps` or `grep`
is the one of busybox. -/
def watchdogScript (busybox : Bool) (w : Columns) (fails : List Char → Bool) (pid : ℕ)
    (table : List Process) : List Event :=
  let children :=
    if busybox then []
    else ((ps w table).filter (grepPid (decimal pid))).flatMap (killChild fails (decimal pid))
  children ++ killHard fails (decimal pid) ++
    [.echo ("watchdog killed testcase process ".toList ++ decimal pid)]

end AutotestClient.Harness
