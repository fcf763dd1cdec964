import AutotestClient.Model.Tsc
import Mathlib.Data.Finset.Image
import Mathlib.Data.Rat.Floor

/-! # Unpacking and comparing kernel trees

`run_once` of `dma_memtest/dma_memtest.py`, in parallel and one copy after the other, and the
number of copies that `setup` has it make. -/

namespace AutotestClient.DmaMemtest

open Shared (digitsValue isDigitOf)
open Tsc (pyStrip)

abbrev Text := List Char

/-- A directory: its files, by path, with their contents. -/
abbrev Tree := Finset (List Text × Text)

/-- A directory with the tree as its only entry. -/
def under (name : Text) (tree : Tree) : Tree := tree.image fun e => (name :: e.1, e.2)

/-- What `path/name` is in the directory `path`, which has the files of `tree`. An absent directory
is empty, as `diff -N` has it. -/
def subtree (name : Text) (tree : Tree) : Tree :=
  if name = [] then tree
  else (tree.filter fun e => e.1.head? = some name).image fun e => (e.1.tail, e.2)

/-- `os.path.basename`. -/
def basename (path : Text) : Text := (path.reverse.takeWhile (· ≠ '/')).reverse

/-- `os.path.basename(self.tarball).strip('.tar.bz2')`. -/
def topDir (tarball : Text) : Text := pyStrip (".tar.bz2".toList.contains ·) (basename tarball)

/-- What `diff -U3 -rN` prints, and its exit status. -/
structure Diff where
  output : Text
  status : ℕ

structure Test where
  tarball : Text
  parallel : Bool
  simCps : ℕ
  nfail : ℕ

/-- `linux.j` after the loop that unpacks the copies: `tar -C` leaves the top level directory of the
tarball, and `extract_tarball_to_dir` does not. -/
def unpacked (parallel : Bool) (top : Text) (copy : ℕ → Tree) (j : ℕ) : Tree :=
  if parallel then under top (copy j) else copy j

/-- `self.nfail` after `run_once`, where the tarball has the top level directory `top` and is
unpacked to `orig` and the copies. -/
def runOnce (diff : Tree → Tree → Diff) (t : Test) (top : Text) (orig : Tree) (copy : ℕ → Tree) :
    ℕ :=
  let linux := unpacked t.parallel top copy
  if t.parallel then
    let procs := (List.range t.simCps).map fun j => diff orig (subtree (topDir t.tarball) (linux j))
    procs.foldl (fun nfail proc => if proc.output ≠ [] then nfail + 1 else nfail) t.nfail
  else
    (List.range t.simCps).foldl
      (fun nfail j => if (diff orig (linux j)).status ≠ 0 then nfail + 1 else nfail) t.nfail

/-! ## The number of copies -/

inductive Failure where
  | attributeError
  | zeroDivisionError
  deriving DecidableEq

/-- `est_size` of `setup`, in megabytes, for a tarball of that many bytes. -/
def estSize (bytes : ℕ) : ℕ :=
  let sizeTarball := bytes / 1024 / 1024
  let compressRatio := 5
  sizeTarball * compressRatio

/-- `int(re.search(r'\d+', text).group(0))`. -/
def searchNumber (text : Text) : Except Failure ℕ :=
  match (text.dropWhile fun c => !isDigitOf 10 c).takeWhile (isDigitOf 10) with
  | [] => .error .attributeError
  | digits => .ok (digitsValue 10 digits)

/-- `get_sim_cps`, where `memStr` is what `grep MemTotal /proc/meminfo` prints. The quotient is not
negative, so that `int` rounds it down. -/
def getSimCps (memStr : Text) (estSize : ℕ) : Except Failure ℤ := do
  let memTotal ← searchNumber memStr
  let mem := memTotal / 1024
  if estSize = 0 then .error .zeroDivisionError
  else
    let simCps : ℚ := 3 / 2 * mem / estSize
    let simCps := if mem % estSize ≥ estSize / 2 then simCps + 1 else simCps
    let simCps := if mem / 32 < 1 then simCps + 1 else simCps
    .ok ⌊simCps⌋

end AutotestClient.DmaMemtest
