import AutotestClient.Model.Tsc
import AutotestClient.Shared.Lines

/-! # The test lists of the libvirt tests

`get_testcases` of `libvirt_tck/libvirt_tck.py` and `get_tests_from_cfg` of
`libvirt_test_api/libvirt_test_api.py`, which differ in what they take for a test. -/

namespace AutotestClient.Libvirt

open Shared (isDigitOf isSpace linesOf)
open Tsc (pyStrip)

abbrev Text := List Char

/-- `item == line[:-1]`, whatever the last character is. -/
def looksLikeHeader (item line : Text) : Bool := decide (item = line.dropLast)

/-- `line.startswith('#')`. -/
def isComment (line : Text) : Bool := decide (['#'] <+: line)

/-- What the loop over the lines appends to `testcases`, from a state of `flag` on. -/
def readTests (isTest : Text → Bool) (item : Text) (flag : Bool) : List Text → List Text
  | [] => []
  | eachLine :: lines =>
      let line := pyStrip isSpace eachLine
      if isComment line then readTests isTest item flag lines
      else if !flag && line.isEmpty then readTests isTest item flag lines
      else if looksLikeHeader item line then readTests isTest item true lines
      else if flag && line.isEmpty then []
      else if flag && isTest line then line :: readTests isTest item flag lines
      else readTests isTest item flag lines

/-- `line[0].isdigit()`. -/
def startsWithDigit (line : Text) : Bool := line.head?.any (isDigitOf 10)

/-- `line.endswith('.conf')`. -/
def isConf (line : Text) : Bool := decide (".conf".toList <:+ line)

/-- For the content of the file. -/
def getTestcases (testcasecfg item : Text) : List Text :=
  readTests startsWithDigit item false (linesOf '\n' testcasecfg)

/-- For the content of the file. -/
def getTestsFromCfg (cfg item : Text) : List Text :=
  readTests isConf item false (linesOf '\n' cfg)

end AutotestClient.Libvirt
