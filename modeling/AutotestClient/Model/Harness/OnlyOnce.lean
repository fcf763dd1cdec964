import AutotestClient.Model.Harness.Arrays
import AutotestClient.Model.Harness.Verdict

/-! # Testcases that run only once

`tc_run_me_only_once` keeps a file for each testcase that has run. Its name is made of the command
line. -/

namespace AutotestClient.Harness

open Shared

/-- A testcase that calls the function: `$0`, the arguments, and what the shell and the variables
are at that time. -/
structure Invocation where
  script : List Char
  args : List (List Char)
  sh : Shell
  state : State

/-- `TC_ARGS="$@"` -/
def Invocation.tcArgs (i : Invocation) : List Char := [' '].intercalate i.args

/-- `${tag//*\//}`: the first match takes all up to the last slash. -/
def afterLastSlash (text : List Char) : List Char := (text.reverse.takeWhile (· ≠ '/')).reverse

/-- `${tag// /_}` -/
def noSpaces (text : List Char) : List Char := text.map fun c => if c = ' ' then '_' else c

/-- The tag of a testcase. -/
def Invocation.tag (i : Invocation) : List Char :=
  let text := i.sh.echo (i.sh.split i.script ++ i.sh.split i.tcArgs)
  noSpaces (afterLastSlash (text.rdropWhile (· = '\n')))

/-- `$TMPBASE/tc_run_me_only_once/$tag` -/
def marker (tmpbase tag : List Char) : List Char :=
  tmpbase ++ "/tc_run_me_only_once/".toList ++ tag

/-- The files, the state, and whether the testcase exits. -/
structure OnlyOnce where
  files : List (List Char)
  state : State
  exits : Bool

/-- `tc_run_me_only_once`, if its directory is `present`. `touches` tells which of the paths can be
made a file. The test of several words is in error. -/
def tcRunMeOnlyOnce (touches : List Char → Bool) (tmpbase : List Char) (present : Bool)
    (files : List (List Char)) (i : Invocation) : OnlyOnce :=
  if !present then ⟨files, i.state, false⟩
  else
    let tag := i.tag
    let paths := i.sh.split (marker tmpbase tag)
    if paths.length = 1 ∧ paths.all files.contains then
      let s := tcInfo [String.ofList tag ++ " has already run"] i.state
      ⟨files, { s with tstCount := s.tstTotal }, true⟩
    else
      let s := tcInfo [String.ofList tag ++ " running for the first and only time"] i.state
      ⟨files ++ paths.filter touches, s, false⟩

end AutotestClient.Harness
