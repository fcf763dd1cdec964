import AutotestClient.Model.Tsc
import AutotestClient.Shared.Dict

/-! # The report of aio-stress

`format_results` of `aiostress/aiostress.py`. -/

namespace AutotestClient.Aiostress

open Shared (insertAll isSpace words)
open Tsc (pyStrip)

abbrev Text := List Char

abbrev Keyval := AList fun _ : Text => Text

inductive Failure where
  /-- `key, value = line.split('(')` without exactly two parts. -/
  | valueError
  /-- `value.split()[0]` without a word. -/
  | indexError
  deriving DecidableEq

/-- The line after which the loop for the results starts. -/
def isHeader (line : Text) : Bool :=
  decide ("threads".toList <:+: line) && decide ("files".toList <:+: line) &&
    decide ("contexts".toList <:+: line)

/-- `key.strip().replace(' ', '_')`. -/
def keyOf (key : Text) : Text := (pyStrip isSpace key).map fun c => if c = ' ' then '_' else c

/-- The key and the value of a line of the results. -/
def lineEntry (line : Text) : Except Failure (Text × Text) :=
  match (line.takeWhile (· ≠ ')')).splitOn '(' with
  | [key, value] =>
      match words isSpace value with
      | [] => .error .indexError
      | word :: _ => .ok (keyOf key, word)
  | _ => .error .valueError

/-- The key-values that are written. The second loop goes on where the first one has stopped. -/
def formatResults (report : List Text) : Except Failure Keyval := do
  let entries ← (report.dropWhile (!isHeader ·)).tail.mapM lineEntry
  .ok (insertAll entries ∅)

end AutotestClient.Aiostress
