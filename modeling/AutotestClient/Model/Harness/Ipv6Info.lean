import AutotestClient.Model.Harness.Arrays
import AutotestClient.Model.Harness.Ipv6
import AutotestClient.Model.Harness.Numbers
import Mathlib.Logic.Function.Basic

/-! # IPv6 addresses by scope

`tc_ipv6_info` of `linux-tools/shared/tc_utils.source`. -/

namespace AutotestClient.Harness

open Shared

/-! ## The arrays -/

inductive Scope where
  | global | host | link | site | compat
  deriving DecidableEq

def Scope.text : Scope → List Char
  | global => "global".toList
  | host => "host".toList
  | link => "link".toList
  | site => "site".toList
  | compat => "compat".toList

inductive Column where
  | addrs | masks | ifaces
  deriving DecidableEq

def Column.text : Column → List Char
  | addrs => "ADDRS".toList
  | masks => "MASKS".toList
  | ifaces => "IFACES".toList

/-- The arrays that `tc_ipv6_info` fills. -/
inductive Ipv6Array where
  | all (column : Column)
  | scopes
  | ofScope (scope : Scope) (column : Column)
  deriving DecidableEq

/-- `TC_IPV6_ADDRS`, `TC_IPV6_host_ADDRS` and so on. -/
def Ipv6Array.text : Ipv6Array → List Char
  | all column => "TC_IPV6_".toList ++ column.text
  | scopes => "TC_IPV6_SCOPES".toList
  | ofScope scope column => "TC_IPV6_".toList ++ scope.text ++ '_' :: column.text

def Ipv6Array.name (id : Ipv6Array) : Name where
  text := id.text
  valid := by
    cases id with
    | all column => cases column <;> decide
    | scopes => decide
    | ofScope scope column => cases scope <;> cases column <;> decide
  shown := by
    cases id with
    | all column => cases column <;> decide
    | scopes => decide
    | ofScope scope column => cases scope <;> cases column <;> decide

abbrev Ipv6Arrays := Ipv6Array → BashArray

/-! ## Pushing -/

section Push

variable (sh : Shell)

def pushTo (id : Ipv6Array) (value : List Char) (arrays : Ipv6Arrays) : Option Ipv6Arrays :=
  (tcArrayPush sh id.name value (arrays id)).map (Function.update arrays id)

/-- `tc_array_push id $value` -/
def pushWord (id : Ipv6Array) (value : List Char) (arrays : Ipv6Arrays) : Option Ipv6Arrays :=
  pushTo sh id ((sh.split value).headD []) arrays

/-- What the shell makes of a text that `eval` has it read again. -/
structure Reader where
  /-- The words that brace, tilde and pathname expansion make of one. -/
  expand : List Char → List (List Char)
  /-- What is left of the arrays after a push whose value is more than words. -/
  run : Ipv6Array → List Char → Ipv6Arrays → Option Ipv6Arrays

/-- Operators and quotes of the shell. -/
def isSpecial (c : Char) : Bool := c ∈ "|&;()<>`\\\"'".toList

/-- The text is read as words: there is nothing special in it, no expansion and no comment. -/
def readsAsWords (text : List Char) : Bool :=
  !text.any isSpecial &&
    decide (text.IsChain fun c d => ¬(c = '$' ∧ startsExpansion d)) &&
    (words isBlank text).all fun w => w.head? ≠ some '#'

/-- `eval tc_array_push id $value` -/
def evalPush (reader : Reader) (id : Ipv6Array) (value : List Char) (arrays : Ipv6Arrays) :
    Option Ipv6Arrays :=
  let text := sh.evalText value
  if readsAsWords text then
    pushTo sh id (((words isBlank text).flatMap reader.expand).headD []) arrays
  else reader.run id text arrays

end Push

/-! ## Lines -/

/-- The lines that `read` finds, with a mark on the characters after a backslash. A backslash at
the end of a line joins it with the next. `line` is what there is of the first one. -/
def readLines : List (Char × Bool) → List Char → List (List (Char × Bool))
  | _, [] => []
  | line, '\n' :: text => line :: readLines [] text
  | line, '\\' :: '\n' :: text => readLines line text
  | line, '\\' :: c :: text => readLines (line ++ [(c, true)]) text
  | line, c :: text => readLines (line ++ [(c, false)]) text

/-- `read addr junk1 mask flags junk2 iface` -/
def lineFields (line : List (Char × Bool)) : List (List Char) :=
  (readFields (fun x => isBlank x.1 && !x.2) 5 line).map fun field => field.map Prod.fst

/-- The `case` on `${flags:0:1}`. -/
def scopeOf (scope : List Char) : Option Scope :=
  if scope = ['0'] then some .global
  else if scope = ['1'] then some .host
  else if scope = ['2'] then some .link
  else if scope = ['4'] then some .site
  else if scope = ['8'] then some .compat
  else none

section Info

variable (sh : Shell) (reader : Reader) (expr : List Char → Option ℤ) (date : List Char)

/-- `tc_parse_ipv6_addr $addr` -/
def parseIpv6Word (addr : List Char) (s : State) : Except State (State × List Char) :=
  match tcParseIpv6Addr ((sh.split addr).headD []) with
  | none => .error (tcBreakIfBadRc 1
      ["tc_parse_ipv6_addr: Internal script error: called w/o IPV6 addr to parse."] s).1
  | some parsed => .ok (s, parsed ++ ['\n'])

/-- The seven pushes for a line. -/
def pushLine (scope : Scope) (addr mask iface : List Char) (arrays : Ipv6Arrays) :
    Option Ipv6Arrays := do
  let arrays ← pushWord sh (.all .addrs) addr arrays
  let arrays ← pushWord sh (.all .masks) mask arrays
  let arrays ← pushWord sh (.all .ifaces) iface arrays
  let arrays ← pushWord sh .scopes scope.text arrays
  let arrays ← evalPush sh reader (.ofScope scope .addrs) addr arrays
  let arrays ← evalPush sh reader (.ofScope scope .masks) mask arrays
  evalPush sh reader (.ofScope scope .ifaces) iface arrays

/-- The loop over the lines, and `[ "$TC_IPV6_ADDRS" ]`. The result is `none` if the testcase
ends. -/
def infoLines : List (List (Char × Bool)) → Ipv6Arrays → State →
    Option (Ipv6Arrays × State × ℕ)
  | [], arrays, s => some (arrays, s, if (arrays (.all .addrs)).get 0 = [] then 1 else 0)
  | line :: lines, arrays, s =>
      let field (k : ℕ) := (lineFields line)[k]?.getD []
      let (s, addr) := substitute date (parseIpv6Word sh (field 0)) s
      let (s, mask) := substitute date (tcHex2dec expr ((sh.split (field 2)).headD []) none) s
      let scope := (field 3).take 1
      match scopeOf scope with
      | none =>
          let text := [' '].intercalate [addr, field 1, mask, field 3, field 4, field 5]
          some (arrays, tcInfo ["Unknown scope " ++ String.ofList scope ++ " in \"" ++
            String.ofList text ++ "\""] s, 1)
      | some scope => do
          let arrays ← pushLine sh reader scope addr mask (field 5) arrays
          infoLines lines arrays s

/-- `tc_ipv6_info`, with the text of `/proc/net/if_inet6` if there is such a file. -/
def tcIpv6Info (file : Option (List Char)) (_ : Ipv6Arrays) (s : State) :
    Option (Ipv6Arrays × State × ℕ) :=
  let arrays : Ipv6Arrays := fun _ => .ofWords []
  match file with
  | none => some (arrays, s, 1)
  | some text => infoLines sh reader expr date (readLines [] text) arrays s

end Info

end AutotestClient.Harness
