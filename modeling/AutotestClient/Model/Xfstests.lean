import AutotestClient.Shared.Lines
import AutotestClient.Shared.Numeral
import AutotestClient.Shared.Words

/-! # The group file of xfstests

`_get_groups` and `_get_tests_for_group` of `xfstests/xfstests.py`, which read the same file. -/

namespace AutotestClient.Xfstests

open Shared

abbrev Text := List Char

/-- The groups of a match of `(\d{3})\s(.*)` at the start of a line. -/
def matchGroupTestLine (line : Text) : Option (Text × Text) :=
  if (line.take 3).length = 3 ∧ (line.take 3).all (isDigitOf 10) then
    match line.drop 3 with
    | [] => none
    | c :: rest => if isSpace c then some (line.take 3, rest.takeWhile (· ≠ '\n')) else none
  else none

inductive Failure where
  | attributeError
  deriving DecidableEq

/-- The body of the loop of `_get_groups`. The inner loop goes over the list it tests, and a list
has no `add`. -/
def visitGroups (groups : List Text) (l : Text) : Except Failure (List Text) :=
  match matchGroupTestLine l with
  | none => .ok groups
  | some m =>
      let groups := words isSpace m.2
      if ∀ g ∈ groups, groups.contains g then .ok groups else .error .attributeError

/-- `_get_groups`, for the content of the file. -/
def getGroups (file : Text) : Except Failure (List Text) :=
  (linesOf '\n' file).foldlM visitGroups []

/-- The body of the loop of `_get_tests_for_group`. -/
def visitTests (group : Text) (tests : List Text) (l : Text) : List Text :=
  match matchGroupTestLine l with
  | none => tests
  | some m =>
      if (words isSpace m.2).contains group then
        if tests.contains m.1 then tests else tests ++ [m.1]
      else tests

/-- `_get_tests_for_group`, for the content of the file. -/
def getTestsForGroup (file group : Text) : List Text :=
  (linesOf '\n' file).foldl (visitTests group) []

end AutotestClient.Xfstests
