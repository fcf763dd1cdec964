import AutotestClient.Shared.Numeral
import Mathlib.Order.Interval.Finset.Nat

/-! # CPU sets as text

`monotonic_time/src/cpuset.c`, and the copy of `parse_cpu_set` in `tsc/src/checktsc.c`. -/

namespace AutotestClient.CpuSet

open Shared

/-- `CPU_SETSIZE`. -/
def cpuSetsize : ℕ := 1024

def countCpus (cpus : Finset ℕ) : ℕ :=
  (List.range cpuSetsize).foldl (fun count cpu => if cpu ∈ cpus then count + 1 else count) 0

/-! ## Parsing -/

/-- The cast to `int`. -/
def toInt (v : ℤ) : ℤ := (BitVec.ofInt 32 v).toInt

/-- What the numbers of one round come to: a `break` with the text at that point, or `start`
and `end` with the text after them. -/
inductive ItemRead where
  | broke (s : List Char)
  | item (start stop : ℤ) (next : List Char)

def readItem (s : List Char) : ItemRead :=
  let start := (strtol s).1
  let next := (strtol s).2
  if next = s then .broke s
  else
    match next with
    | '-' :: s =>
        let stop := (strtol s).1
        let next := (strtol s).2
        if next = s then .broke s else .item (toInt start) (toInt stop) next
    | _ => .item (toInt start) (toInt start) next

def skipComma : List Char → List Char
  | ',' :: s => s
  | s => s

/-- The message of the first check that fails. The two copies of the function begin the last
one differently. -/
def checkItem (badRange : String) (start stop : ℤ) : Option String :=
  if start < 0 ∨ cpuSetsize ≤ start then
    some ("bad cpu number '" ++ toString start ++ "' in cpu set")
  else if stop < 0 ∨ cpuSetsize ≤ stop then
    some ("bad cpu number '" ++ toString stop ++ "' in cpu set")
  else if stop < start then
    some (badRange ++ toString start ++ "-" ++ toString stop ++ "' in cpu set")
  else none

/-- After the loop: is there text left? -/
def finish (cpus : Finset ℕ) : List Char → Finset ℕ × Option String
  | [] => (cpus, none)
  | c :: _ => (cpus, some ("unexpected character '" ++ String.singleton c ++ "' in cpu set"))

/-- The loop. A round that goes on has read a character at least, so as many rounds as the
text has characters are enough. -/
def parseLoop (badRange : String) : ℕ → List Char → Finset ℕ → Finset ℕ × Option String
  | 0, s, cpus => finish cpus s
  | _ + 1, [], cpus => finish cpus []
  | rounds + 1, c :: s, cpus =>
      match readItem (c :: s) with
      | .broke s => finish cpus s
      | .item start stop next =>
          match checkItem badRange start stop with
          | some message => (cpus, some message)
          | none =>
              parseLoop badRange rounds (skipComma next)
                (cpus ∪ Finset.Icc start.toNat stop.toNat)

/-- The set, and the message of the error: without one the function returns 0. -/
def parseText (badRange : String) (s : List Char) : Finset ℕ × Option String :=
  parseLoop badRange s.length s ∅

/-- `parse_cpu_set` of `cpuset.c`. -/
def parseCpuSet : List Char → Finset ℕ × Option String := parseText "bad range '"

/-- `parse_cpu_set` of `checktsc.c`. -/
def checktscParseCpuSet : List Char → Finset ℕ × Option String := parseText "bad cpu range '"

/-! ## Printing -/

/-- The characters from `buf` on. -/
abbrev Memory := ℕ → Char

/-- What `snprintf` leaves when it prints `text` at `bufp` with a buffer of `len` bytes. -/
def snprintf (mem : Memory) (bufp len : ℕ) (text : List Char) : Memory := fun i =>
  if len = 0 ∨ i < bufp then mem i
  else if i - bufp < min text.length (len - 1) then text.getD (i - bufp) '\x00'
  else if i - bufp = min text.length (len - 1) then '\x00'
  else mem i

/-- `show_range`: the return value and the memory. -/
def showRange (mem : Memory) (bufp len : ℕ) (pre : List Char) (start stop : ℤ) : ℤ × Memory :=
  let text := if start = stop then pre ++ printInt start
    else pre ++ printInt start ++ '-' :: printInt stop
  (if text.length < len then text.length else -1, snprintf mem bufp len text)

/-- The variables of `show_cpu_set`. -/
structure Show where
  mem : Memory
  bufp : ℕ
  len : ℕ
  start : ℤ
  stop : ℤ
  sep : List Char

/-- One `show_range` call; an error carries the memory it returns with. -/
def Show.flush (s : Show) : Except Memory Show :=
  let r := showRange s.mem s.bufp s.len s.sep s.start s.stop
  if r.1 < 0 then .error r.2
  else .ok { s with mem := r.2, bufp := s.bufp + r.1.toNat, len := s.len - r.1.toNat }

/-- The body of the loop. -/
def Show.visit (cpus : Finset ℕ) (s : Show) (cpu : ℕ) : Except Memory Show :=
  if cpu ∈ cpus then
    .ok { s with start := if s.start < 0 then cpu else s.start, stop := cpu }
  else if 0 ≤ s.start then
    s.flush.map fun s => { s with sep := [','], start := -1, stop := -1 }
  else .ok s

/-- `show_cpu_set`: the return value and the memory. -/
def showCpuSet (mem : Memory) (len : ℕ) (cpus : Finset ℕ) : ℤ × Memory :=
  let init : Show := ⟨mem, 0, len, -1, -1, []⟩
  let last := (List.range cpuSetsize).foldlM (Show.visit cpus) init
  match last.bind fun s => if 0 ≤ s.start then s.flush else .ok s with
  | .ok s => (s.bufp, s.mem)
  | .error mem => (-1, mem)

/-! ## What the texts are for -/

/-- An item `N` or `N-M` of a list, with its ends. -/
inductive ItemText : List Char → ℤ × ℤ → Prop where
  | single {t : List Char} {v : ℤ} (h : Numeral t v) : ItemText t (v, v)
  | range {t t' : List Char} {v w : ℤ} (h : Numeral t v) (h' : Numeral t' w) :
      ItemText (t ++ '-' :: t') (v, w)

/-- `ListText s ranges`: `s` is the comma separated list of the ranges. -/
inductive ListText : List Char → List (ℤ × ℤ) → Prop where
  | mk {items : List (List Char)} {ranges : List (ℤ × ℤ)}
      (h : List.Forall₂ ItemText items ranges) : ListText ([','].intercalate items) ranges

/-- `0 <= N <= M < CPU_SETSIZE`. -/
def InRange (r : ℤ × ℤ) : Prop := 0 ≤ r.1 ∧ r.1 ≤ r.2 ∧ r.2 < cpuSetsize

instance (r : ℤ × ℤ) : Decidable (InRange r) := inferInstanceAs (Decidable (_ ∧ _ ∧ _))

/-- The union of the ranges. -/
def union (ranges : List (ℤ × ℤ)) : Finset ℕ :=
  ranges.foldr (fun r cpus => Finset.Icc r.1.toNat r.2.toNat ∪ cpus) ∅

/-- The text of a run. -/
def rangeText (r : ℕ × ℕ) : List Char :=
  if r.1 = r.2 then Nat.toDigits 10 r.1 else Nat.toDigits 10 r.1 ++ '-' :: Nat.toDigits 10 r.2

/-- The canonical text of a set with the given runs. -/
def runsText (runs : List (ℕ × ℕ)) : List Char := [','].intercalate (runs.map rangeText)

end AutotestClient.CpuSet
