import AutotestClient.Shared.Lines
import AutotestClient.Shared.Numeral
import AutotestClient.Shared.Words
import Mathlib.Data.Char
import Mathlib.Data.List.AList
import Mathlib.Data.List.Lex
import Mathlib.Data.List.Sort

/-! # Comparing the results of LTP runs

The script `ltp/ltp-diff.py`. -/

namespace AutotestClient.LtpDiff

open Shared

abbrev Text := List Char

/-- `runs[i]`: the status of each test. -/
abbrev Run := AList fun _ : Text => Text

/-- `testnames`, which maps each name to 1. -/
abbrev Testnames := AList fun _ : Text => ℕ

/-! ## Reading the results -/

/-- The groups of a match of `(\S+\s+\S+)\s+(\S+)\s+:` at the start of a line. Words and white space
alternate, so there is only one way to match. -/
def matchResult (line : Text) : Option (Text × Text) :=
  let test := line.takeWhile (!isSpace ·)
  let rest := line.dropWhile (!isSpace ·)
  let gap := rest.takeWhile isSpace
  let rest := rest.dropWhile isSpace
  let sequence := rest.takeWhile (!isSpace ·)
  let rest := (rest.dropWhile (!isSpace ·)).dropWhile isSpace
  let status := rest.takeWhile (!isSpace ·)
  let rest := rest.dropWhile (!isSpace ·)
  if test ≠ [] ∧ sequence ≠ [] ∧ status ≠ [] ∧ (rest.dropWhile isSpace).head? = some ':' then
    some (test ++ gap ++ sequence, status)
  else none

/-- The body of the loop over the lines of a file. -/
def readLine (st : Run × Testnames) (line : Text) : Run × Testnames :=
  match matchResult line with
  | none => st
  | some (testname, status) => (st.1.insert testname status, st.2.insert testname 1)

/-- `get_results`, for what the files contain; `none` if one of them cannot be read. -/
def getResults : List (Option Text) → Testnames → Option (List Run × Testnames)
  | [], testnames => some ([], testnames)
  | none :: _, _ => none
  | some file :: files, testnames =>
      let st := (linesOf '\n' file).foldl readLine (∅, testnames)
      (getResults files st.2).map fun r => (st.1 :: r.1, r.2)

/-! ## Comparing them -/

/-- `if not runs[i].has_key(testname): runs[i][testname] = "null"`. -/
def fill (testname : Text) (run : Run) : Run :=
  if testname ∈ run then run else run.insert testname "null".toList

/-- The loop over `i` for one test, from `runs[i - 1]` and the runs after it on: the runs, and
whether two neighbours differ. -/
def compareFrom (testname : Text) : Run → List Run → List Run × Bool
  | prev, [] => ([prev], false)
  | prev, next :: rest =>
      let next := fill testname next
      let prev := fill testname prev
      let (runs, differ) := compareFrom testname next rest
      (prev :: runs, decide (next.lookup testname ≠ prev.lookup testname) || differ)

def compareTest (testname : Text) : List Run → List Run × Bool
  | [] => ([], false)
  | run :: runs => compareFrom testname run runs

/-- `re.sub('\s+', ',', testname)`. -/
def cleaned : Text → Text
  | [] => []
  | c :: text =>
      if isSpace c then (if text.head?.any isSpace then cleaned text else ',' :: cleaned text)
      else c :: cleaned text

/-- `%-35s`. -/
def padRight (width : ℕ) (text : Text) : Text := text ++ List.replicate (width - text.length) ' '

/-- The lines printed for a test that differs. -/
def difference (header : ℕ) (testname : Text) (runs : List Run) : List Text :=
  let heading :=
    if header = 0 then
      ["Tests with Inconsistent Results across Runs".toList,
        "  ".toList ++ padRight 35 "Testname,Sequence".toList ++ ":\tRun Results".toList]
    else []
  let allResults := ['/'].intercalate (runs.filterMap fun run => run.lookup testname)
  heading ++ ["  ".toList ++ padRight 35 (cleaned testname) ++ ":\t".toList ++ allResults]

/-- The runs, the variables and the lines printed so far. -/
structure Comparison where
  runs : List Run
  header : ℕ
  rc : ℕ
  printed : List Text

/-- The body of the loop over the names. -/
def visit (c : Comparison) (testname : Text) : Comparison :=
  let r := compareTest testname c.runs
  if r.2 then ⟨r.1, 1, 1, c.printed ++ difference c.header testname r.1⟩
  else { c with runs := r.1 }

/-- `print "  Run[%d]: %d" % (i, len(runs[i].keys()))`. -/
def sizeLine (i : ℕ) (run : Run) : Text :=
  "  Run[".toList ++ printInt i ++ "]: ".toList ++ printInt run.keys.length

/-- `compare_results`; the names are a global variable. -/
def compareResults (testnames : Testnames) (runs : List Run) : Comparison :=
  let sizes := runs.zipIdx.map fun e => sizeLine e.2 e.1
  let printed := "LTP Test Results to Compare".toList :: sizes ++ [[]]
  let c := (testnames.keys.insertionSort (· ≤ ·)).foldl visit ⟨runs, 0, 0, printed⟩
  if c.rc = 0 then { c with printed := c.printed ++ ["All LTP results are identical".toList] }
  else c

/-- The exit status of the script. -/
def ltpDiff (resources : List (Option Text)) : ℕ :=
  if resources.length < 2 then 1
  else
    match getResults resources ∅ with
    | none => 1
    | some (runs, testnames) => (compareResults testnames runs).rc

end AutotestClient.LtpDiff
