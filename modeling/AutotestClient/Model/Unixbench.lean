import AutotestClient.Model.Tsc
import AutotestClient.Shared.Dict

/-! # Reading the reports of UnixBench

`process_section` of `unixbench5/unixbench5.py` and `postprocess_iteration` of
`unixbench/unixbench.py`. -/

namespace AutotestClient.Unixbench

open Shared (insertAll isSpace printInt words)
open Tsc (pyStrip)

abbrev Text := List Char

abbrev Keyval := AList fun _ : Text => Text

/-- `re.sub('\W', '', '_'.join(name))`. -/
def keyOf (name : List Text) : Text :=
  (['_'].intercalate name).filter fun c => c.isAlphanum || c = '_'

/-- The key and the value of a line with at least six words, `words[:-6]` and `words[-6]`. -/
def entryOf (words : List Text) : Option (Text × Text) :=
  if words.length < 6 then none
  else words[words.length - 6]?.map fun value => (keyOf (words.take (words.length - 6)), value)

/-! ## Version 5 -/

inductive Failure where
  | testError
  | indexError
  deriving DecidableEq

def lower (text : Text) : Text := text.map Char.toLower

/-- `split('\n\n')`, with a text read so far. -/
def paragraphsFrom (part : Text) : Text → List Text
  | '\n' :: '\n' :: text => part :: paragraphsFrom [] text
  | c :: text => paragraphsFrom (part ++ [c]) text
  | [] => [part]

/-- `re.search('no measured results', line, flags=re.IGNORECASE)`. -/
def matchesNoResults (line : Text) : Bool := decide ("no measured results".toList <:+: lower line)

/-- What the loop over the lines appends to `err`. -/
def errLines (lines : List Text) : List Text :=
  (lines.zipIdx.filter fun e => matchesNoResults e.1).map fun e => printInt (e.2 + 1)

/-- What the loop stores for a line. -/
def lineEntry (suffix line : Text) : Option (Text × Text) :=
  (entryOf (words isSpace (lower line))).map fun e => (e.1 ++ suffix, e.2)

/-- `err`, and the key-values that are written. -/
def processSection (err : List Text) (sectionText suffix : Text) :
    List Text × Except Failure Keyval :=
  match paragraphsFrom [] sectionText with
  | _ :: block :: last :: _ =>
      let lines := (pyStrip isSpace block).splitOn '\n'
      (err ++ errLines lines,
        match (words isSpace (pyStrip isSpace last)).getLast? with
        | none => .error .indexError
        | some score =>
            .ok (insertAll (lines.filterMap (lineEntry suffix) ++
              [("score".toList ++ suffix, score)]) ∅))
  | _ => (err, .error .testError)

/-- The message of the `TestError` of `cleanup`. -/
def cleanup (err : List Text) (reportData : Text) : Except Text Unit :=
  if err.isEmpty then .ok ()
  else
    .error ("No measured results for output lines: ".toList ++ [' '].intercalate err ++
      "\nOutput:".toList ++ reportData)

/-! ## Version 4 -/

namespace Four

/-- The test of `check_for_error`. -/
def isError (words : List Text) : Bool :=
  decide (words.drop (words.length - 3) =
    ["no".toList, "measured".toList, "results".toList])

/-- How `check_for_error` changes `err`. -/
def record (err : Option Text) (words : List Text) : Option Text :=
  let key := ['_'].intercalate (words.take (words.length - 3))
  match err with
  | none => some key
  | some err => some (err ++ ' ' :: key)

/-- The first loop, which ends at an empty line. -/
def readLines : List Text → Option Text → Keyval → Option Text × Keyval
  | [], err, keyval => (err, keyval)
  | line :: lines, err, keyval =>
      if (pyStrip isSpace line).isEmpty then (err, keyval)
      else if isError (words isSpace line) then
        readLines lines (record err (words isSpace line)) keyval
      else readLines lines err (insertAll (entryOf (words isSpace line)).toList keyval)

/-- What the second loop finds. -/
def finalScore? (lines : List Text) : Option Text :=
  (lines.find? fun line => decide ("FINAL SCORE".toList <:+: line)).bind fun line =>
    (words isSpace line).getLast?

def postprocessIteration (err : Option Text) (reportData : List Text) : Option Text × Keyval :=
  let r := readLines reportData err ∅
  (r.1, insertAll ((finalScore? reportData).toList.map fun score => ("score".toList, score)) r.2)

def cleanup : Option Text → Except Text Unit
  | none => .ok ()
  | some err => .error err

end Four

end AutotestClient.Unixbench
