import AutotestClient.Model.Harness.Arrays

/-! # The file system type of a path

`tc_is_fstype` goes up the path and looks for each directory on the way in `/proc/mounts`. -/

namespace AutotestClient.Harness

open Shared

/-! ## A line of `/proc/mounts` -/

/-- What `read` makes of the backslashes in a line. -/
def unescape : List Char → List Char
  | [] => []
  | ['\\'] => []
  | '\\' :: c :: rest => c :: unescape rest
  | c :: rest => c :: unescape rest

/-- The `sed` command: a dash in front of a line becomes `_`. -/
def maskDashes (start : Bool) : List Char → List Char
  | [] => []
  | c :: rest => (if start ∧ c = '-' then '_' else c) :: maskDashes (c = '\n') rest

/-- The arguments of `set` for a line: what `echo $line` prints, after `sed`. -/
def Shell.mountWords (sh : Shell) (line : List Char) : List (List Char) :=
  sh.split (maskDashes true (sh.echo (sh.split (unescape line))))

/-- `set` with these arguments. What it does with options is a parameter, and without arguments
it prints the variables. -/
def setArgs (options : List (List Char) → List (List Char) → List (List Char))
    (args : List (List Char)) : List (List Char) → List (List Char)
  | [] => args
  | w :: ws => if w.head? ∈ [some '-', some '+'] then options args (w :: ws) else w :: ws

/-! ## The loops -/

/-- The loop over the lines: whether it returns, and the positional parameters it leaves. -/
def scanMounts (sh : Shell) (options : List (List Char) → List (List Char) → List (List Char))
    (path fstype : List Char) : List (List Char) → List (List Char) → Bool × List (List Char)
  | [], args => (false, args)
  | line :: lines, args =>
      let args := setArgs options args (sh.mountWords line)
      let procpath := args[1]?.getD []
      let proctype := args[2]?.getD []
      if proctype = fstype ∧ path = procpath then (true, args)
      else scanMounts sh options path fstype lines args

/-- `${path%/*}` -/
def dropComponent (path : List Char) : List Char :=
  if '/' ∈ path then (path.reverse.dropWhile (· ≠ '/')).tail.reverse else path

/-- `path=${path%/*}` and `[ "$path" ] || path="/"` -/
def parentPath (path : List Char) : List Char :=
  let path := dropComponent path
  if path = [] then ['/'] else path

/-- The loop over the directories. `[ $path ]` holds if the expansion is one word, and is in error
with several paths. Only `fuel` rounds are run. -/
def walkUp (sh : Shell) (options : List (List Char) → List (List Char) → List (List Char))
    (fstype : List Char) (lines : List (List Char)) :
    ℕ → List Char → List (List Char) → Option Bool
  | 0, _, _ => none
  | fuel + 1, path, args =>
      if (sh.split path).length = 1 then
        match scanMounts sh options path fstype lines args with
        | (true, _) => some true
        | (false, args) =>
            if path = ['/'] then some false
            else walkUp sh options fstype lines fuel (parentPath path) args
      else some false

/-- `tc_is_fstype path fstype`; the status is 0 if the result is `true`. -/
def tcIsFstype (sh : Shell) (options : List (List Char) → List (List Char) → List (List Char))
    (fuel : ℕ) (lines : List (List Char)) (path fstype : List Char) : Option Bool :=
  walkUp sh options fstype lines fuel path [path, fstype]

end AutotestClient.Harness
