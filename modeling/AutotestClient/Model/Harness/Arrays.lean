import AutotestClient.Shared.Numeral
import AutotestClient.Shared.Words
import Mathlib.Data.List.Range

/-! # Arrays as stacks and queues

The `tc_array_*` functions of `linux-tools/shared/tc_utils.source`, with the default `IFS`. What
depends on the files in the current directory or on the code hidden in a value is a parameter. -/

namespace AutotestClient.Harness

open Shared

/-! ## Arrays of bash -/

/-- The elements that are set, with their indices. -/
@[ext] structure BashArray where
  entries : List (List Char × ℕ)
  ascending : entries.Pairwise fun x y => x.2 < y.2

namespace BashArray

/-- `${#a[*]}`. -/
def size (a : BashArray) : ℕ := a.entries.length

/-- `${a[i]}`. -/
def get (a : BashArray) (i : ℕ) : List Char :=
  ((a.entries.find? fun e => e.2 = i).map Prod.fst).getD []

/-- The values of `${a[@]:i}`. -/
def valuesFrom (a : BashArray) (i : ℕ) : List (List Char) :=
  (a.entries.filter fun e => i ≤ e.2).map Prod.fst

/-- `a[i]=v`. -/
def set (a : BashArray) (i : ℕ) (v : List Char) : BashArray where
  entries := a.entries.filter (fun e => e.2 < i) ++ (v, i) :: a.entries.filter fun e => i < e.2
  ascending := by
    refine List.pairwise_append.mpr ⟨a.ascending.filter _, List.pairwise_cons.mpr ⟨?_, ?_⟩, ?_⟩
    · intro e he
      simpa using List.of_mem_filter he
    · exact a.ascending.filter _
    · intro e he e' he'
      have hlt : e.2 < i := by simpa using List.of_mem_filter he
      rcases List.mem_cons.mp he' with rfl | he'
      · exact hlt
      · exact hlt.trans (by simpa using List.of_mem_filter he')

/-- `unset a[i]`. -/
def unset (a : BashArray) (i : ℕ) : BashArray where
  entries := a.entries.filter fun e => e.2 ≠ i
  ascending := a.ascending.filter _

/-- `a=(..)`. -/
def ofWords (ws : List (List Char)) : BashArray where
  entries := ws.zipIdx
  ascending := by
    have hindices : (ws.zipIdx.map Prod.snd).Pairwise (· < ·) := by
      rw [List.zipIdx_map_snd]
      exact List.pairwise_lt_range'
    exact List.pairwise_map.mp hindices

variable (a : BashArray) (i : ℕ) (v : List Char)

@[simp] theorem entries_set : (a.set i v).entries =
    a.entries.filter (fun e => e.2 < i) ++ (v, i) :: a.entries.filter (fun e => i < e.2) := rfl

@[simp] theorem entries_unset : (a.unset i).entries = a.entries.filter fun e => e.2 ≠ i := rfl

@[simp] theorem entries_ofWords (ws : List (List Char)) : (ofWords ws).entries = ws.zipIdx := rfl

end BashArray

/-- The name of an ordinary variable that none of the functions hides behind a local one. -/
structure Name where
  text : List Char
  valid : (text.head?.any fun c => !c.isDigit) ∧ text.all fun c => c.isAlphanum || c = '_'
  shown : text ∉ ["tc_array_name".toList, "tc_value".toList, "tc_size".toList]

/-! ## Expansion -/

structure Shell where
  /-- The words that pathname expansion makes of one. -/
  glob : List Char → List (List Char)
  /-- What is left of the array after a command that is not the one of the function. -/
  run : List Char → BashArray → BashArray
  /-- What such a command prints. -/
  prints : List Char → BashArray → List Char
  /-- What `tc_size` is after such a command, if it is set. -/
  tcSize : List Char → BashArray → Option ℕ
  /-- What `echo -e` makes of its text. -/
  escapes : List Char → List Char

/-- The characters of `IFS`. -/
def isBlank (c : Char) : Bool := c = ' ' || c = '\t' || c = '\n'

/-- The words of an expansion without quotes. -/
def Shell.split (sh : Shell) (text : List Char) : List (List Char) :=
  (words isBlank text).flatMap sh.glob

/-- The command that `eval` makes of an argument without quotes. -/
def Shell.evalText (sh : Shell) (text : List Char) : List Char :=
  [' '].intercalate (sh.split text)

/-- The command that `eval` makes of a word of the function itself. The word is a pattern for file
names like any other. -/
def Shell.command (sh : Shell) (word : List Char) : List Char :=
  [' '].intercalate (sh.glob word)

/-- What a `\` takes its meaning from, inside double quotes. -/
def isEscapable (c : Char) : Bool := c = '$' || c = '`' || c = '"' || c = '\\'

/-- A `$` before any other character stands for itself. -/
def startsExpansion (c : Char) : Bool := c.isAlphanum || c ∈ "_\x7b([*@#?-$!".toList

/-- The value of a text up to its closing double quote, if the text ends there and nothing in
it is to be expanded. -/
def readQuoted : List Char → Option (List Char)
  | [] => none
  | '"' :: rest => if rest = [] then some [] else none
  | '`' :: _ => none
  | '\\' :: c :: rest =>
      if isEscapable c then (readQuoted rest).map (c :: ·)
      else if c = '\n' then readQuoted rest
      else (readQuoted (c :: rest)).map ('\\' :: ·)
  | '$' :: c :: rest =>
      if startsExpansion c then none else (readQuoted (c :: rest)).map ('$' :: ·)
  | c :: rest => (readQuoted rest).map (c :: ·)

/-- Whether a leading argument of `echo` is taken for options. -/
def isEchoOption : List Char → Bool
  | '-' :: letters => letters ≠ [] && letters.all (· ∈ ['n', 'e', 'E'])
  | _ => false

def Shell.echo (sh : Shell) (args : List (List Char)) : List Char :=
  let letters := (args.takeWhile isEchoOption).flatten
  let text := [' '].intercalate (args.dropWhile isEchoOption) ++ if 'n' ∈ letters then [] else ['\n']
  -- the last of `-e` and `-E` counts
  if (letters.filter (· ∈ ['e', 'E'])).getLast? = some 'e' then sh.escapes text else text

/-! ## The functions -/

/-- The word of `eval tc_size=\${#$tc_array_name[*]}`. -/
def sizeWord (name : Name) : List Char :=
  "tc_size=$\x7b#".toList ++ name.text ++ "[*]\x7d".toList

/-- The array and `tc_size` after this command. -/
def evalSize (sh : Shell) (name : Name) (a : BashArray) : BashArray × Option ℕ :=
  let command := sh.command (sizeWord name)
  if command = sizeWord name then (a, some a.size) else (sh.run command a, sh.tcSize command a)

/-- The left side of the assignment in `tc_array_push`, with the quote that opens the value. -/
def pushTarget (name : Name) : List Char := name.text ++ "[tc_size]=\"".toList

/-- `tc_array_push`; without a value the testcase ends. A `tc_size` that is not set is 0. -/
def tcArrayPush (sh : Shell) (name : Name) (value : List Char) (a : BashArray) :
    Option BashArray :=
  if value = [] then none
  else
    let (a, size) := evalSize sh name a
    let command := sh.evalText (pushTarget name ++ value ++ ['"'])
    match if pushTarget name <+: command then readQuoted (command.drop (pushTarget name).length)
      else none with
    | some v => some (a.set (size.getD 0) v)
    | none => some (sh.run command a)

/-- `tc_array_enqueue`. -/
def tcArrayEnqueue (sh : Shell) (name : Name) (value : List Char) (a : BashArray) :
    Option BashArray :=
  tcArrayPush sh name value a

/-- `eval echo word` for a word that stands for an element. -/
def evalEcho (sh : Shell) (word value : List Char) (a : BashArray) : BashArray × List Char :=
  let command := sh.command word
  if command = word then (a, sh.echo (sh.split value))
  else (sh.run ("echo ".toList ++ command) a, sh.prints ("echo ".toList ++ command) a)

/-- `\${$tc_array_name[tc_size-1]}`. -/
def topWord (name : Name) : List Char :=
  "$\x7b".toList ++ name.text ++ "[tc_size-1]\x7d".toList

/-- `tc_array_top`, with the array after it. -/
def tcArrayTop (sh : Shell) (name : Name) (a : BashArray) : BashArray × List Char :=
  let (a, size) := evalSize sh name a
  if size.getD 0 = 0 then (a, [])
  else evalEcho sh (topWord name) (a.get (size.getD 0 - 1)) a

/-- `\${$tc_array_name[0]}`. -/
def nextWord (name : Name) : List Char := "$\x7b".toList ++ name.text ++ "[0]\x7d".toList

/-- `tc_array_next`, with the array after it. -/
def tcArrayNext (sh : Shell) (name : Name) (a : BashArray) : BashArray × List Char :=
  let (a, size) := evalSize sh name a
  if size.getD 0 = 0 then (a, []) else evalEcho sh (nextWord name) (a.get 0) a

/-- `$tc_array_name[\${#$tc_array_name[@]}-1]`. -/
def popTarget (name : Name) : List Char :=
  name.text ++ "[$\x7b#".toList ++ name.text ++ "[@]\x7d-1]".toList

/-- The argument of `unset` in `tc_array_pop`, itself a pattern for file names. -/
def popWord (name : Name) (a : BashArray) : List Char :=
  name.text ++ '[' :: printInt a.size ++ "-1]".toList

/-- `tc_array_pop`. Other words than its own name other variables, and there is no index -1 in
an empty array. -/
def tcArrayPop (sh : Shell) (name : Name) (a : BashArray) : BashArray :=
  let command := sh.command (popTarget name)
  if command = popTarget name then
    if a.size ≠ 0 ∧ popWord name a ∈ sh.glob (popWord name a) then a.unset (a.size - 1) else a
  else sh.run ("unset ".toList ++ command) a

/-- `$tc_array_name=\(\${$tc_array_name[@]:1}\)`. -/
def dequeueWord (name : Name) : List Char :=
  name.text ++ "=($\x7b".toList ++ name.text ++ "[@]:1\x7d)".toList

/-- `tc_array_dequeue`. -/
def tcArrayDequeue (sh : Shell) (name : Name) (a : BashArray) : BashArray :=
  let (a, size) := evalSize sh name a
  let command := sh.command (dequeueWord name)
  if size.getD 0 = 0 then a
  else if command = dequeueWord name then .ofWords ((a.valuesFrom 1).flatMap sh.split)
  else sh.run command a

/-- `tc_array_size`, with the array after it. -/
def tcArraySize (sh : Shell) (name : Name) (a : BashArray) : BashArray × List Char :=
  let (a, size) := evalSize sh name a
  (a, (size.map fun n : ℕ => printInt n).getD [] ++ ['\n'])

/-- `tc_array_is_empty`, where `tc_array_size` runs in a subshell. -/
def tcArrayIsEmpty (sh : Shell) (name : Name) (a : BashArray) : Bool :=
  (evalSize sh name a).2.getD 0 = 0

/-! ## Calls -/

inductive ArrayCall where
  | push (value : List Char)
  | enqueue (value : List Char)
  | pop
  | dequeue
  | top
  | next
  | size
  | isEmpty

/-- What the caller sees of a call. -/
inductive ArrayReply where
  | silent
  | echoed (text : List Char)
  | status (holds : Bool)
  deriving DecidableEq

/-- The array after a call, and the reply. -/
def arrayCall (sh : Shell) (name : Name) (a : BashArray) : ArrayCall → Option (BashArray × ArrayReply)
  | .push value => (tcArrayPush sh name value a).map fun a => (a, .silent)
  | .enqueue value => (tcArrayEnqueue sh name value a).map fun a => (a, .silent)
  | .pop => some (tcArrayPop sh name a, .silent)
  | .dequeue => some (tcArrayDequeue sh name a, .silent)
  | .top => some ((tcArrayTop sh name a).1, .echoed (tcArrayTop sh name a).2)
  | .next => some ((tcArrayNext sh name a).1, .echoed (tcArrayNext sh name a).2)
  | .size => some ((tcArraySize sh name a).1, .echoed (tcArraySize sh name a).2)
  | .isEmpty => some (a, .status (tcArrayIsEmpty sh name a))

end AutotestClient.Harness
