import Mathlib.Data.List.Basic

/-! # Lines and paths -/

namespace AutotestClient.Shared

variable {α : Type*} [DecidableEq α]

/-- The lines of a text, each with the end mark `b` it has. -/
def linesOf (b : α) : List α → List (List α)
  | [] => []
  | c :: text =>
      if c = b then [c] :: linesOf b text
      else
        match linesOf b text with
        | [] => [[c]]
        | line :: lines => (c :: line) :: lines

/-- `os.path.join` of two paths. -/
def osPathJoin (dir file : List Char) : List Char :=
  if file.head? = some '/' then file
  else if dir = [] ∨ dir.getLast? = some '/' then dir ++ file
  else dir ++ '/' :: file

end AutotestClient.Shared
