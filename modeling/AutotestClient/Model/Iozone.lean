import AutotestClient.Model.Tsc
import AutotestClient.Shared.Dict
import AutotestClient.Shared.Lines
import Mathlib.Data.List.Dedup
import Mathlib.Data.List.FinRange
import Mathlib.Data.List.Sort
import Mathlib.Data.Rat.Defs

/-! # The results of IOzone

`iozone/postprocessing.py`, and `generate_keyval` of `iozone/iozone.py` in auto mode. The cells of a
table have an arbitrary type with a number in it, so that it can be told where they come from. -/

namespace AutotestClient.Iozone

open Shared (insertAll isSpace linesOf printInt words)
open Tsc (pyInt)

abbrev Text := List Char

/-- `_LABELS`. -/
def labels : List Text :=
  ["file_size", "record_size", "write", "rewrite", "read", "reread", "randread", "randwrite",
    "bkwdread", "recordrewrite", "strideread", "fwrite", "frewrite", "fread", "freread"].map
      String.toList

/-- `_LABELS.index(label)`. -/
def column (label : Text) : Fin 15 := Fin.ofNat 15 (labels.idxOf label)

/-- `range(2, 15)`, the columns with throughputs. -/
def throughputs : List (Fin 15) := (List.finRange 15).drop 2

/-- A line of a table. -/
abbrev Line (α : Type*) := Fin 15 → α

inductive Failure where
  | typeError
  | valueError
  | zeroDivision
  deriving DecidableEq

/-! ## Reading a file -/

/-- The numbers of a line with 15 of them. -/
def resultLine (line : Text) : Option (Line ℤ) :=
  let fields := words isSpace line
  if fields.length ≠ 15 then none
  else (fields.mapM pyInt).map fun values i => values.getD i 0

def parseFile (text : Text) : List (Line ℤ) := (linesOf '\n' text).filterMap resultLine

/-! ## Averages -/

section Averages

variable {α : Type*} (value : α → ℤ) (mean : List α → α)

/-- `int(geometric_mean(values) / 1024.0)`. There is no mean of nothing, and no logarithm of a number
that is not positive; else it is `mean`. -/
def average (values : List α) : Except Failure α :=
  if values.isEmpty then .error .typeError
  else if values.all fun v => decide (0 < value v) then .ok (mean values)
  else .error .valueError

def averagePerformance (results : List (Line α)) (size : Option α) : Except Failure (List α) := do
  let averages ← throughputs.mapM fun i => average value mean (results.map fun line => line i)
  return size.toList ++ averages

/-- `unique` and `sort`. -/
def sizes [DecidableEq α] (index : Fin 15) (results : List (Line α)) : List α :=
  (results.map fun line => line index).dedup.insertionSort fun a b => value a ≤ value b

/-- `index` is the one of `label`. -/
def processResults [DecidableEq α] (results : List (Line α)) :
    Option (Fin 15) → Except Failure (List (List α))
  | none => do return [← averagePerformance value mean results none]
  | some index =>
      (sizes value index results).mapM fun size =>
        averagePerformance value mean (results.filter fun line => line index = size) (some size)

/-- What `analyze` computes for a file. -/
structure Tables (α : Type*) where
  overall : List (List α)
  recordSize : List (List α)
  fileSize : List (List α)

def tables [DecidableEq α] (results : List (Line α)) : Except Failure (Tables α) := do
  let overall ← processResults value mean results none
  let recordSize ← processResults value mean results (some (column "record_size".toList))
  let fileSize ← processResults value mean results (some (column "file_size".toList))
  return ⟨overall, recordSize, fileSize⟩

end Averages

/-! ## Key-values, data sources and graphs -/

/-- `str.splitlines`, with a text read so far. -/
def splitlinesFrom (line : Text) : Text → List Text
  | [] => if line.isEmpty then [] else [line]
  | '\r' :: '\n' :: text => line :: splitlinesFrom [] text
  | c :: text =>
      if c = '\n' || c = '\r' then line :: splitlinesFrom [] text
      else splitlinesFrom (line ++ [c]) text

def splitlines (text : Text) : List Text := splitlinesFrom [] text

/-- The result lines that `generate_keyval` finds. -/
def keyvalLines (text : Text) : List (Line ℤ) := (splitlines text).filterMap resultLine

section Consumers

variable {α : Type*} (value : α → ℤ)

/-- `"%d-%d-%s" % (fields[0], fields[1], l)`. -/
def keyName (line : Line α) (label : Text) : Text :=
  printInt (value (line 0)) ++ '-' :: (printInt (value (line 1)) ++ '-' :: label)

/-- What `generate_keyval` stores for a line. Its labels are those of the module without the
sizes. -/
def lineKeyvals (line : Line α) : List (Text × α) :=
  ((labels.drop 2).zip (throughputs.map line)).map fun e => (keyName value line e.1, e.2)

/-- `keylist` of `generate_keyval`: the last assignment to a key counts. -/
def keylist (lines : List (Line α)) : AList fun _ : Text => α :=
  insertAll (lines.flatMap (lineKeyvals value)) ∅

/-- The files that `report` and `generate_data_source` write. The latter keeps the result lines as
they are. -/
structure DataSources (α : Type*) where
  file : List (List α)
  record : List (List α)
  surface : List (List α)

/-- The first file gets the results for the record sizes, the second one those for the file
sizes. -/
def dataSources (t : Tables α) (results : List (Line α)) : DataSources α where
  file := t.recordSize
  record := t.fileSize
  surface := results.map List.ofFn

/-- A column of a data source, counted from 1. -/
def gnuplotColumn (k : ℕ) (row : List α) : Option α := row[k - 1]?

/-- The points of the graph for each label. -/
structure Graphs (α : Type*) where
  plot2d : List (Text × List (Option α × Option α))
  plot3d : List (Text × List (Option α × Option α × Option α))

/-- `plot_2d_graphs`, with `using 1:%s` for each index of `range(2, 15)`. -/
def plot2dGraphs (d : DataSources α) : List (Text × List (Option α × Option α)) :=
  ((List.range' 2 13).zip (labels.drop 2)).map fun e =>
    (e.2, d.file.map fun row => (gnuplotColumn 1 row, gnuplotColumn e.1 row))

/-- `plot_3d_graphs`, with `using 1:2:%s` for each index of `range(1, 14)`. -/
def plot3dGraphs (d : DataSources α) : List (Text × List (Option α × Option α × Option α)) :=
  ((List.range' 1 13).zip (labels.drop 2)).map fun e =>
    (e.2, d.surface.map fun row => (gnuplotColumn 1 row, gnuplotColumn 2 row, gnuplotColumn e.1 row))

/-- The graphs for the result lines of a file. -/
def graphs [DecidableEq α] (mean : List α → α) (results : List (Line α)) :
    Except Failure (Graphs α) := do
  let t ← tables value mean results
  let d := dataSources t results
  return ⟨plot2dGraphs d, plot3dGraphs d⟩

end Consumers

/-! ## Comparing two runs -/

/-- An element of `new_matrix`. -/
inductive Entry where
  | regression (diff : ℚ)
  | improvement (diff : ℚ)
  | element (element1 : ℤ)
  | dot
  deriving DecidableEq

/-- The body of the inner loop, with the default threshold of 0.05. The index of an element is 0
exactly if it is equal to the first one. -/
def compareElements (line1 : List ℤ) (element1 element2 : ℤ) : Except Failure Entry :=
  if element1 = 0 then .error .zeroDivision
  else
    let ratio : ℚ := element2 / element1
    if ratio < 1 - 1 / 20 then .ok (.regression ((100 * ratio - 1) - 100))
    else if ratio > 1 + 1 / 20 then .ok (.improvement ((100 * ratio - 1) - 100))
    else if line1.head? = some element1 then .ok (.element element1)
    else .ok .dot

structure Counters where
  improvements : ℕ
  regressions : ℕ
  same : ℕ

/-- `same + 1` is no assignment. -/
def Counters.count (c : Counters) : Entry → Counters
  | .regression _ => { c with regressions := c.regressions + 1 }
  | .improvement _ => { c with improvements := c.improvements + 1 }
  | .element _ | .dot => c

/-- What `compare_matrices` returns. -/
structure Comparison where
  newMatrix : List (List Entry)
  improvements : ℕ
  regressions : ℕ
  total : ℕ
  deriving DecidableEq

def compareLines (line1 line2 : List ℤ) : Except Failure (List Entry) :=
  (line1.zip line2).mapM fun e => compareElements line1 e.1 e.2

def compareMatrices (matrix1 matrix2 : List (List ℤ)) : Except Failure Comparison := do
  let newMatrix ← (matrix1.zip matrix2).mapM fun l => compareLines l.1 l.2
  let c := newMatrix.flatten.foldl Counters.count ⟨0, 0, 0⟩
  return ⟨newMatrix, c.improvements, c.regressions, c.improvements + c.regressions + c.same⟩

/-- The share of `part` in percent. -/
def percent (part total : ℕ) : Except Failure ℚ :=
  if total = 0 then .error .zeroDivision else .ok (100 * part / total)

/-- The numbers that `report_comparison` reports for a table. -/
def summary (c : Comparison) : Except Failure (ℚ × ℚ) := do
  return (← percent c.regressions c.total, ← percent c.improvements c.total)

def reportComparison (record file : Comparison) : Except Failure ((ℚ × ℚ) × ℚ × ℚ) := do
  return (← summary record, ← summary file)

/-- `analyze` for two files. -/
def analyze (mean : List ℤ → ℤ) (text1 text2 : Text) : Except Failure ((ℚ × ℚ) × ℚ × ℚ) := do
  let tables1 ← tables id mean (parseFile text1)
  let tables2 ← tables id mean (parseFile text2)
  let record ← compareMatrices tables1.recordSize tables2.recordSize
  let file ← compareMatrices tables1.fileSize tables2.fileSize
  reportComparison record file

end AutotestClient.Iozone
