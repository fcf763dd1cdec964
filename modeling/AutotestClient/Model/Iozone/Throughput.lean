import AutotestClient.Model.Iozone

/-! # The key-values of the throughput mode

`generate_keyval` of `iozone/iozone.py` when IOzone was not run in auto mode. -/

namespace AutotestClient.Iozone

open Shared (digitsValue isDigitOf isSpace printInt)
open Tsc (afterSome afterText pyStrip)

/-! ## The patterns -/

/-- `[-\w\s]`. -/
def inName (c : Char) : Bool := c = '-' || c = '_' || c.isAlphanum || isSpace c

/-- `[\d\.]`. -/
def inValue (c : Char) : Bool := isDigitOf 10 c || c = '.'

/-- The group of a match of `\=[\s]+([\d\.]*) KB/sec`, or of `\=[\s]+([\d\.]*) KB`, at the start.
If there is no digit, the white space before it has to give back its last blank. -/
def matchRate (unit : Text) : Text → Option Text
  | '=' :: text =>
      let gap := text.takeWhile isSpace
      let value := (text.dropWhile isSpace).takeWhile inValue
      let rest := (text.dropWhile isSpace).dropWhile inValue
      if value = [] then
        if 2 ≤ gap.length ∧ gap.getLast? = some ' ' ∧ unit <+: rest then some [] else none
      else if gap ≠ [] ∧ ' ' :: unit <+: rest then some value
      else none
  | _ => none

/-- `re.search` of that pattern. -/
def searchRate (unit : Text) : Text → Option Text
  | [] => none
  | c :: text => (matchRate unit (c :: text)).orElse fun _ => searchRate unit text

/-- The groups of a match at the start of `child_regexp` or `parent_regexp`, which begin with
`phrase`. No part of them can begin with what the part before it repeats. -/
def matchSees (phrase text : Text) : Option (ℕ × Text × Text) := do
  let text ← afterText phrase text
  let text ← afterSome isSpace text
  let count := text.takeWhile (isDigitOf 10)
  let text ← afterSome (isDigitOf 10) text
  let text ← afterSome isSpace text
  let desc := text.takeWhile inName
  let text ← afterSome inName text
  let value ← matchRate "KB/sec".toList text
  some (digitsValue 10 count, desc, value)

def searchSees (phrase : Text) : Text → Option (ℕ × Text × Text)
  | [] => none
  | c :: text => (matchSees phrase (c :: text)).orElse fun _ => searchSees phrase text

def childPhrase : Text := "Children see throughput for".toList

def parentPhrase : Text := "Parent sees throughput for".toList

/-- `__get_section_name`. -/
def getSectionName (desc : Text) : Text :=
  (pyStrip isSpace desc).map fun c => if c = ' ' then '_' else c

/-! ## The loop -/

/-- `section`, `w_count` and `keylist`. -/
structure Scan where
  sectionName : Option Text
  wCount : ℕ
  keylist : AList fun _ : Text => Text

/-- `%s` of a section. -/
def sectionText (sectionName : Option Text) : Text := sectionName.getD "None".toList

/-- `"%s-%d-%s" % (section, w_count, basekey)`. -/
def throughputKey (sectionName : Text) (wCount : ℕ) (basekey : Text) : Text :=
  sectionName ++ '-' :: (printInt wCount ++ '-' :: basekey)

/-- The key and the pattern for a line that is not about the children or the parent. -/
def basekey? (line : Text) : Option (Text × Text) :=
  if (line.drop 3).take 23 = " throughput per thread ".toList then
    some (line.take 3, "KB/sec".toList)
  else if "Min xfer ".toList <+: line then some ("MinXfer".toList, "KB".toList)
  else none

/-- The body of the loop. A line about the parent sets `basekey`, whether it belongs to the section
or not, and does nothing else. -/
def visitLine (st : Scan) (text : Text) : Scan :=
  let line := pyStrip isSpace text
  match searchSees childPhrase line with
  | some (count, desc, value) =>
      let sectionName := getSectionName desc
      ⟨some sectionName, count,
        st.keylist.insert (throughputKey sectionName count "kids".toList) value⟩
  | none =>
      if line.contains '=' ∧ searchSees parentPhrase line = none then
        match basekey? line with
        | none => st
        | some (basekey, unit) =>
            match searchRate unit line with
            | none => st
            | some result =>
                { st with
                  keylist := st.keylist.insert
                    (throughputKey (sectionText st.sectionName) st.wCount basekey) result }
      else st

/-- `keylist` of `generate_keyval` in throughput mode. -/
def throughputKeylist (results : Text) : AList fun _ : Text => Text :=
  ((splitlines results).foldl visitLine ⟨none, 0, ∅⟩).keylist

end AutotestClient.Iozone
