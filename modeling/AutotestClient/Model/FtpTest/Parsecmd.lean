import Mathlib.Data.List.Infix

/-! # Reading a command

`parsecmd` of `linux-tools/ftplib_test/ftptest.c` and the round of `main` around it. A read beyond
the buffer, or a store beyond the parameter table, is a fault and ends the run. -/

namespace AutotestClient.FtpTest

def nMaxPar : ℕ := 6

def nul : UInt8 := 0

def newline : UInt8 := 10

def blank : UInt8 := 32

def quote : UInt8 := 34

inductive Fault where
  | read (index : ℕ)
  | store (index : ℕ)
  deriving DecidableEq

/-- `ptr`: the bytes of the buffer in front of it, as they have been rewritten, and from it on. -/
structure Cursor where
  before : List UInt8
  rest : List UInt8
  deriving DecidableEq

/-- `while((*ptr == ' ' || *ptr == '\0') && (ptr < buf+len)) ptr++;`. The byte is read before `ptr`
is compared with the end, here as in the loops below. -/
def skipStart (before : List UInt8) : List UInt8 → Except Fault Cursor
  | [] => .error (.read before.length)
  | c :: rest =>
      if c = blank ∨ c = nul then skipStart (before ++ [c]) rest else .ok ⟨before, c :: rest⟩

/-- `while (*(++ptr)!='\"' && ptr<buf+len) ;`, from the byte after the opening quote on. -/
def closeQuote (before : List UInt8) : List UInt8 → Except Fault Cursor
  | [] => .error (.read before.length)
  | c :: rest => if c = quote then .ok ⟨before, c :: rest⟩ else closeQuote (before ++ [c]) rest

/-- `if (*ptr=='\n') *ptr='\0' ; ptr++;`. -/
def Cursor.next (cur : Cursor) : Cursor where
  before := cur.before ++ (cur.rest.take 1).map fun c => if c = newline then nul else c
  rest := cur.rest.tail

theorem closeQuote_length {before rest : List UInt8} {cur : Cursor}
    (h : closeQuote before rest = .ok cur) : cur.rest.length ≤ rest.length := by
  induction rest generalizing before with
  | nil => cases h
  | cons c rest ih =>
      rw [closeQuote] at h
      split_ifs at h
      · obtain rfl := Except.ok.inj h
        exact le_rfl
      · exact (ih h).trans (Nat.le_succ _)

/-- The loop over a word. The `break` after an open quote is never reached: the end of the buffer
has been read by then. -/
def skipWord (before rest : List UInt8) : Except Fault Cursor :=
  match rest with
  | [] => .error (.read before.length)
  | c :: rest =>
      if c = blank ∨ c = nul then .ok ⟨before, c :: rest⟩
      else if c = quote then
        match _h : closeQuote (before ++ [c]) rest with
        | .error f => .error f
        | .ok cur => skipWord cur.next.before cur.next.rest
      else skipWord (Cursor.next ⟨before, c :: rest⟩).before rest
termination_by rest.length
decreasing_by
  · have hle := closeQuote_length ‹_›
    simp only [Cursor.next, List.length_tail, List.length_cons]
    omega
  · simp

/-- `while((*ptr == ' ') && (ptr < buf+len)) {*ptr='\0'; ptr++;}`. -/
def skipBlanks (before : List UInt8) : List UInt8 → Except Fault Cursor
  | [] => .error (.read before.length)
  | c :: rest => if c = blank then skipBlanks (before ++ [nul]) rest else .ok ⟨before, c :: rest⟩

/-- The buffer after the parse, and the indices of the words that `par` points to. The entries of
`par` behind them are `NULL`, and `n` is their number. -/
structure Parsed where
  buf : List UInt8
  par : List ℕ
  deriving DecidableEq

/-- The outer loop, with the part of `par` that has been filled. -/
def parseWords (par : List ℕ) (cur : Cursor) : Except Fault Parsed :=
  if cur.rest = [] then .ok ⟨cur.before, par⟩
  else if nMaxPar ≤ par.length then .error (.store par.length)
  else do
    let par' := par ++ [cur.before.length]
    let cur ← skipWord cur.before cur.rest
    let cur ← skipBlanks cur.before cur.rest
    if cur.rest.head? = some nul then .ok ⟨cur.before ++ cur.rest, par'⟩ else parseWords par' cur
termination_by nMaxPar - par.length
decreasing_by
  simp only [List.length_append, List.length_singleton]
  omega

def parsecmd (buf : List UInt8) : Except Fault Parsed := do
  let cur ← skipStart [] buf
  parseWords [] cur

/-! ## The round of `main` -/

/-- The string that starts at an index. -/
def cString (buf : List UInt8) (index : ℕ) : Except Fault (List UInt8) :=
  if nul ∈ buf.drop index then .ok ((buf.drop index).takeWhile (· ≠ nul))
  else .error (.read buf.length)

def testover : List UInt8 := "testover".toUTF8.toList

inductive Round where
  /-- The loop is left. -/
  | over
  /-- `handlecmd(par, n)`. -/
  | handlecmd (parsed : Parsed)
  deriving DecidableEq

/-- What `main` does with the bytes it has read: it parses and prints them, and looks for the end
of the test before it handles the command. -/
def mainRound (cmdbuf : List UInt8) : Except Fault Round := do
  let parsed ← parsecmd cmdbuf
  let _printed ← parsed.par.mapM (cString parsed.buf)
  let text ← cString parsed.buf 0
  if testover <:+: text then .ok .over else .ok (.handlecmd parsed)

end AutotestClient.FtpTest
