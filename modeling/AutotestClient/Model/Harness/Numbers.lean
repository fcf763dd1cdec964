import AutotestClient.Model.Harness.Waiters
import AutotestClient.Shared.Numeral
import Mathlib.Data.List.DropRight

/-! # Conversion of numbers

`tc_dec2hex`, `tc_hex2dec` and `tc_parse_ipv4_addr` of `linux-tools/shared/tc_utils.source`. What
bash makes of a text that is no number is a parameter. -/

namespace AutotestClient.Harness

open Shared Waiters

variable (expr : List Char → Option ℤ)

/-! ## Arithmetic -/

/-- Integers of bash have 64 bits. -/
def wrap (v : ℤ) : ℤ := v.bmod (2 ^ 64)

/-- The value of a text in an arithmetic expression, if there is no error. -/
def arith (text : List Char) : Option ℤ :=
  match scanSigned text with
  | some (v, []) => some (wrap v)
  -- digits are missing, or `x` is none
  | some (_, ['x']) => none
  | some (_, ['X']) => none
  | _ => expr text

/-- `printf` takes no wider fields. -/
def intMax : ℕ := 2 ^ 31 - 1

/-- What `printf` makes of a sign and digits, with leading zeros up to the width if there is one.
Nothing is printed if the width is too large. -/
def zeroPad (digits : Option ℕ) (sign ds : List Char) : List Char :=
  match digits with
  | none => sign ++ ds
  | some width =>
      if intMax < width then []
      else sign ++ List.replicate (width - (sign.length + ds.length)) '0' ++ ds

/-- The digits of `%x` and `%X`. -/
def hexText (case : Char) (v : ℤ) : List Char :=
  let ds := Nat.toDigits 16 (v % 2 ^ 64).toNat
  if case = 'X' then ds.map Char.toUpper else ds

/-! ## The functions -/

/-- The second argument of both functions, a number of digits. -/
def checkDigits (funcname : String) (digits : Option ℕ) (s : State) : Except State State :=
  match digits with
  | none => .ok s
  | some n =>
      orExit (0 < wrap n) (funcname ++ ": Internal testcase error: " ++
        String.ofList (printInt n) ++ " not valid number of digits") s

/-- `tc_dec2hex num digits case`. An error in the number is the end of the call. -/
def tcDec2hex (num : List Char) (digits : Option ℕ) (case : List Char) (s : State) :
    Except State (State × List Char) :=
  match arith expr num with
  | none => .error s
  | some decNum => do
      let s ← orExit (decNum ≠ 0)
        "tc_dec2hex: Internal testcase error: first arg must be decimal integer" s
      let s ← checkDigits "tc_dec2hex" digits s
      let case := if case = [] then ['X'] else case
      let s ← orExit (case = ['x'] ∨ case = ['X'])
        ("tc_dec2hex: Internal testcase error: " ++ String.ofList case ++ " must be x or X") s
      return (s, zeroPad digits [] (hexText (case.headD 'X') decNum))

/-- `tc_hex2dec num digits` -/
def tcHex2dec (num : List Char) (digits : Option ℕ) (s : State) :
    Except State (State × List Char) := do
  let hexNum := if num.take 2 = ['0', 'x'] ∨ num.take 2 = ['0', 'X'] then num else '0' :: 'x' :: num
  -- without a value `hex_num` stays as it is, but then the status is not 0
  let value := (arith expr hexNum).getD 0
  let s ← orExit (value ≠ 0)
    "tc_hex2dec: Internal testcase error: first arg must be hex integer" s
  let s ← checkDigits "tc_hex2dec" digits s
  let sign := if value < 0 then ['-'] else []
  return (s, zeroPad digits sign (Nat.toDigits 10 value.natAbs))

/-! ## Command substitution -/

/-- A line of a report as it is printed. A text that is not empty comes from `cat`. -/
def Line.shown (date : List Char) : Line → List Char
  | .info count m => " INFO ".toList ++ printInt count ++ ": ".toList ++ m.toList ++ ['\n']
  | .warn count m => " WARN ".toList ++ printInt count ++ ": ".toList ++ m.toList ++ ['\n']
  | .pass count name => " PASS ".toList ++ printInt count ++ ": ".toList ++ name.toList ++ ['\n']
  | .fail count name m => "FAIL ".toList ++ printInt count ++ ": ".toList ++ name.toList ++
      ": ".toList ++ m.toList ++ " at ".toList ++ date ++ ['\n']
  | .brok count name m => "BROK ".toList ++ printInt count ++ ": ".toList ++ name.toList ++
      ": ".toList ++ m.toList ++ " at ".toList ++ date ++ ['\n']
  | .conf count name m => " CONF ".toList ++ printInt count ++ ": ".toList ++ name.toList ++
      ": ".toList ++ m.toList ++ " at ".toList ++ date ++ ['\n']
  | .text m => if m = "" then ['\n'] else m.toList

/-- What is printed on the way to the state, with the lines that were there before left out. -/
def State.shown (date : List Char) (s : State) : List Char :=
  s.console.lines.reverse.flatMap (Line.shown date)

/-- `$(f)`: the text, and the state after it. An exit ends the subshell only; the files it has
emptied stay so. -/
def substitute (date : List Char) (f : State → Except State (State × List Char)) (s : State) :
    State × List Char :=
  let (t, out) :=
    match f { s with console := { s.console with lines := [] } } with
    | .ok (t, out) => (t, t.shown date ++ out)
    | .error t => (t, t.shown date)
  ({ s with console := { s.console with stdout := t.console.stdout, stderr := t.console.stderr } },
    out.rdropWhile (· = '\n'))

/-- `tc_parse_ipv4_addr`, for an address without blanks and glob characters. -/
def tcParseIpv4Addr (date addr : List Char) (s : State) : Except State (State × List Char) := do
  let s ← orExit (addr ≠ [])
    "tc_parse_ipv4_addr: Internal script error: called w/o IPV4 addr to parse." s
  let part (k : ℕ) := tcHex2dec expr ((addr.drop k).take 2) none
  let (s, p1) := substitute date (part 0) s
  let (s, p2) := substitute date (part 2) s
  let (s, p3) := substitute date (part 4) s
  let (s, p4) := substitute date (part 6) s
  return (s, p1 ++ '.' :: p2 ++ '.' :: p3 ++ '.' :: p4 ++ ['\n'])

end AutotestClient.Harness
