import AutotestClient.Model.CheckTsc
import AutotestClient.Model.CpuSet
import AutotestClient.Shared.Words
import Mathlib.Algebra.BigOperators.Group.List.Basic

/-! # The TSC test and its wrapper

`main` of `tsc/src/checktsc.c` with what the program prints, and `run_once` of
`tsc/tsc.py`, which reads its own arguments and the output again. -/

namespace AutotestClient.Tsc

open Shared CheckTsc

/-! ## The command line -/

structure Options where
  cpus : Finset ℕ
  threshold : ℤ
  silent : ℕ
  verbose : ℕ

/-- All CPUs and `DEFAULT_THRESHOLD`. -/
def defaultOptions : Options := ⟨Finset.range maxCpus, 500, 0, 0⟩

/-- The entries of `options`. -/
inductive Choice where
  | cpus | help | silent | threshold | verbose
  deriving DecidableEq

def Choice.takesArgument : Choice → Bool
  | .cpus | .threshold => true
  | _ => false

/-- The `switch` of `main`. Nothing is run if an option is refused, or after `help`. -/
def Choice.apply (o : Options) (optarg : List Char) : Choice → Option Options
  | .cpus =>
      match CpuSet.checktscParseCpuSet optarg with
      | (parsed, none) => some { o with cpus := parsed }
      | (_, some _) => none
  | .help => none
  | .silent => some { o with silent := o.silent + 1 }
  | .threshold => some { o with threshold := (strtol optarg).1 }
  | .verbose => some { o with verbose := o.verbose + 1 }

/-- The option string `c:hst:v`. -/
def shortChoice? : Char → Option Choice
  | 'c' => some .cpus
  | 'h' => some .help
  | 's' => some .silent
  | 't' => some .threshold
  | 'v' => some .verbose
  | _ => none

def longChoices : List (List Char × Choice) :=
  [("cpus".toList, .cpus), ("help".toList, .help), ("silent".toList, .silent),
    ("threshold".toList, .threshold), ("verbose".toList, .verbose)]

/-- A long name may be cut short as long as it fits one option only. -/
def longChoice? (name : List Char) : Option Choice :=
  match longChoices.filter fun e => name <+: e.1 with
  | [e] => some e.2
  | _ => none

/-- The letters of one argument after its `-`. An option that takes an argument has the rest of
the letters, or the next argument. -/
def shortOptions : List Char → List (List Char) → Options → Option (Options × List (List Char))
  | [], rest, o => some (o, rest)
  | c :: letters, rest, o =>
      match shortChoice? c with
      | none => none
      | some choice =>
          if choice.takesArgument then
            match letters, rest with
            | [], [] => none
            | [], optarg :: rest => (choice.apply o optarg).map fun o => (o, rest)
            | letters, rest => (choice.apply o letters).map fun o => (o, rest)
          else (choice.apply o []).bind fun o => shortOptions letters rest o

/-- One argument after its `--`. -/
def longOption (text : List Char) (rest : List (List Char)) (o : Options) :
    Option (Options × List (List Char)) :=
  match longChoice? (text.takeWhile (· ≠ '=')) with
  | none => none
  | some choice =>
      match choice.takesArgument, text.dropWhile (· ≠ '='), rest with
      | true, _ :: optarg, rest => (choice.apply o optarg).map fun o => (o, rest)
      | true, [], optarg :: rest => (choice.apply o optarg).map fun o => (o, rest)
      | true, [], [] => none
      | false, [], rest => (choice.apply o []).map fun o => (o, rest)
      | false, _ :: _, _ => none

/-- The `getopt_long` loop of `main` and the test after it, which refuses arguments that are no
options. A round takes one argument at least. -/
def getopt : ℕ → List (List Char) → Options → Option Options
  | _, [], o => some o
  | 0, _ :: _, _ => none
  | rounds + 1, arg :: rest, o =>
      match arg with
      | ['-', '-'] => if rest = [] then some o else none
      | '-' :: '-' :: text => (longOption text rest o).bind fun r => getopt rounds r.2 r.1
      | '-' :: c :: letters =>
          (shortOptions (c :: letters) rest o).bind fun r => getopt rounds r.2 r.1
      | _ => none

/-- The options in force, if the program gets to its test with these arguments. -/
def checktscOptions (argv : List (List Char)) : Option Options :=
  getopt argv.length argv defaultOptions

/-! ## The output -/

def padLeft (width : ℕ) (text : List Char) : List Char :=
  List.replicate (width - text.length) ' ' ++ text

/-- `% Ld`. -/
def printSpaced (v : ℤ) : List Char := if v < 0 then printInt v else ' ' :: printInt v

/-- `CPU %d - CPU %d`. -/
def pairText (pair : ℕ × ℕ) : List Char :=
  "CPU ".toList ++ printInt pair.1 ++ " - CPU ".toList ++ printInt pair.2

/-- `CPU %d - CPU %d = % 5Ld`. -/
def deltaLine (pair : ℕ × ℕ) (delta : BitVec 64) : List Char :=
  pairText pair ++ " = ".toList ++ padLeft 5 (printSpaced delta.toInt)

/-- `loop %2d: roundtrip = %5Ld`. -/
def loopLine (i : ℕ) (x : Sample) : List Char :=
  "loop ".toList ++ padLeft 2 (printInt i) ++ ": roundtrip = ".toList ++
    padLeft 5 (printInt (x.t1 - x.t0).toInt)

/-- A call of `tsc_delta`; without samples if the master's affinity call failed. -/
structure Measurement where
  pair : ℕ × ℕ
  samples : Option (List Sample)

/-- The value `tsc_delta` prints. -/
def Measurement.delta? (m : Measurement) : Option (BitVec 64) := m.samples.map tscDelta

def Measurement.print (o : Options) (m : Measurement) : List Char :=
  (if o.verbose ≠ 0 then pairText m.pair ++ ['\n'] else []) ++
    (if o.verbose ≠ 0 then
      (m.samples.getD []).zipIdx.flatMap fun e => loopLine e.2 e.1 ++ ['\n'] else []) ++
    if o.silent = 0 then (m.delta?.map fun delta => deltaLine m.pair delta ++ ['\n']).getD [] else []

/-- The return value of `check_tsc`; a failed affinity call counts as the delta -1. -/
def errs (o : Options) (ms : List Measurement) : ℤ :=
  (ms.map fun m => (checkTsc o.cpus o.threshold).verdict (m.delta?.getD (-1))).sum

/-- What the wrapper sees of a run. -/
structure Result where
  stdout : List Char
  exitStatus : ℕ

/-- The end of `main`, after measurements of some pairs. -/
def checktsc (o : Options) (ms : List Measurement) : Result where
  stdout := ms.flatMap (Measurement.print o) ++
    if o.silent = 0 then (if errs o ms ≠ 0 then "FAIL\n".toList else "PASS\n".toList) else []
  exitStatus := if errs o ms ≠ 0 then 1 else 0

/-! ## The wrapper -/

/-- `str.split()`. -/
def pySplit (text : List Char) : List (List Char) := words isSpace text

/-- `str.strip(chars)`, for the characters with `p`. -/
def pyStrip (p : Char → Bool) (text : List Char) : List Char :=
  ((text.dropWhile p).reverse.dropWhile p).reverse

/-- `int` of a text without its sign. -/
def pyDigits (text : List Char) : Option ℕ :=
  if text ≠ [] ∧ text.all (isDigitOf 10) then some (digitsValue 10 text) else none

/-- `int(text)`; `none` is a `ValueError`. -/
def pyInt (text : List Char) : Option ℤ :=
  match pyStrip isSpace text with
  | '-' :: digits => (pyDigits digits).map fun n : ℕ => -(n : ℤ)
  | '+' :: digits => (pyDigits digits).map fun n : ℕ => (n : ℤ)
  | digits => (pyDigits digits).map fun n : ℕ => (n : ℤ)

/-- The text after a literal part of a pattern. -/
def afterText (part text : List Char) : Option (List Char) :=
  if part <+: text then some (text.drop part.length) else none

/-- The text after one or more characters with `p`. -/
def afterSome (p : Char → Bool) (text : List Char) : Option (List Char) :=
  if text.takeWhile p = [] then none else some (text.dropWhile p)

/-- The text after a match of `CPU \d+ - CPU \d+ =\s+-*\d+` at the start. No part of the
pattern can begin with what the part before it repeats, so there is nothing to backtrack. -/
def afterLatency (text : List Char) : Option (List Char) := do
  let text ← afterText "CPU ".toList text
  let text ← afterSome (isDigitOf 10) text
  let text ← afterText " - CPU ".toList text
  let text ← afterSome (isDigitOf 10) text
  let text ← afterText " =".toList text
  let text ← afterSome isSpace text
  afterSome (isDigitOf 10) (text.dropWhile (· = '-'))

/-- `re.findall` of that pattern, with the first `skip` characters part of a match made
before. -/
def findLatencies : ℕ → List Char → List (List Char)
  | _, [] => []
  | skip + 1, _ :: text => findLatencies skip text
  | 0, c :: text =>
      match afterLatency (c :: text) with
      | none => findLatencies 0 text
      | some rest =>
          let n := (c :: text).length - rest.length
          (c :: text).take n :: findLatencies (n - 1) text

/-- `int(ln.split('=', 2)[1])`. -/
def lineDelta (line : List Char) : Option ℤ :=
  match line.splitOn '=' with
  | _ :: text :: _ => pyInt text
  | _ => none

/-- The loop over the lines, with `max_delta` and `reason`. -/
def worstLatency : List (List Char) → ℤ × List Char → Option (ℤ × List Char)
  | [], worst => some worst
  | line :: lines, worst =>
      match lineDelta line with
      | none => none
      | some delta => worstLatency lines (if worst.1 < |delta| then (|delta|, line) else worst)

/-- How `run_once` ends. -/
inductive Outcome where
  | passed
  | testFail (reason : List Char)
  | testError (reason : List Char)
  | indexError
  | valueError
  deriving DecidableEq

/-- `UNKNOWN FAILURE: rc=%d from %s`. -/
def defaultReason (exitStatus : ℕ) (command : List Char) : List Char :=
  "UNKNOWN FAILURE: rc=".toList ++ printInt exitStatus ++ " from ".toList ++ command

/-- `Latency %s exceeds threshold %d`. -/
def latencyReason (line : List Char) (threshold : ℤ) : List Char :=
  "Latency ".toList ++ line ++ " exceeds threshold ".toList ++ printInt threshold

/-- `run_once`, after the program has run. -/
def runOnce (srcdir args : List Char) (result : Result) : Outcome :=
  let error : Outcome :=
    .testError (defaultReason result.exitStatus (srcdir ++ "/checktsc ".toList ++ args))
  if result.exitStatus = 0 then .passed
  else if result.exitStatus = 1 ∧ "FAIL".toList <:+ pyStrip (· = '\n') result.stdout then
    match (pySplit args)[1]? with
    | none => .indexError
    | some word =>
        match pyInt word, worstLatency (findLatencies 0 result.stdout) (0, []) with
        | none, _ => .valueError
        | some _, none => .valueError
        | some threshold, some worst =>
            if threshold < worst.1 then .testFail (latencyReason worst.2 threshold) else error
  else error

end AutotestClient.Tsc
