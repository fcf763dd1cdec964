import Mathlib.Data.Int.Notation
import Mathlib.Data.Nat.Notation

/-! # The disk budget of the FFSB wrapper

`set_ffsb_params` of `ffsb/ffsb.py` reads a profile and fits the files of its
sections to the space of the mount points. -/

namespace AutotestClient.Ffsb

abbrev Text := List Char

/-! ## The lines of a profile -/

/-- `\s` of a Python 2 pattern. -/
def isSpace (c : Char) : Bool :=
  c = ' ' || c = '\t' || c = '\n' || c = '\r' || c = '\x0b' || c = '\x0c'

/-- `int` of a text of digits. -/
def numeral (digits : Text) : ℕ :=
  digits.foldl (fun n c => 10 * n + (c.toNat - '0'.toNat)) 0

/-- What follows `key` on a line that starts with it, blanks apart. -/
def after (key line : Text) : Option Text :=
  let line := line.dropWhile isSpace
  if key.isPrefixOf line then some (line.drop key.length) else none

/-- A match of `\d+` and what follows it. -/
def digits? (text : Text) : Option (Text × Text) :=
  let (digits, rest) := text.span Char.isDigit
  if digits.isEmpty then none else some (digits, rest)

/-- The class attribute `bytes`. -/
def bytes : Char → Option ℕ
  | 'K' | 'k' => some 1024
  | 'M' | 'm' => some 1048576
  | 'G' | 'g' => some 1073741824
  | 'T' | 't' => some 1099511627776
  | _ => none

/-- The groups of the four patterns. `maxFilesize` is still a text, since the unit is
looked up after the match. -/
inductive Token where
  | header (fsno : ℕ)
  | location (path : Text)
  | numFiles (n : ℕ)
  | maxFilesize (text : Text)
  deriving DecidableEq

def matchHeader (line : Text) : Option Token := do
  let (digits, rest) ← digits? (← after "[filesystem".toList line)
  if [']'].isPrefixOf rest then some (.header (numeral digits)) else none

def matchLocation (line : Text) : Option Token := do
  let rest ← after "location=".toList line
  some (.location (rest.takeWhile (· ≠ '\n')))

def matchNumFiles (line : Text) : Option Token := do
  let (digits, _) ← digits? (← after "num_files=".toList line)
  some (.numFiles (numeral digits))

/-- The unit is optional in the pattern. -/
def matchMaxFilesize (line : Text) : Option Token := do
  let (digits, rest) ← digits? (← after "max_filesize=".toList line)
  some (.maxFilesize (digits ++ (rest.head?.filter fun c => (bytes c).isSome).toList))

/-- What the four tests of the loop over the lines find, in their order. -/
def tokens (line : Text) : List Token :=
  (matchHeader line).toList ++ (matchLocation line).toList ++
    (matchNumFiles line).toList ++ (matchMaxFilesize line).toList

/-! ## The table -/

/-- An element of one of the lists in `d`. -/
inductive Value where
  | path (mntpt : Text)
  | num (z : ℤ)
  deriving DecidableEq

/-- How the function ends without a table. `illTyped` stands for arithmetic on a path,
which only a section with its lines in another order leads to, and `outOfFuel` for a
`while` loop that was not run to its end. -/
inductive Failure where
  | unboundLocal
  | keyError
  | valueError
  | indexError
  | illTyped
  | outOfFuel
  deriving DecidableEq

/-- The dictionary `d`, its items in the order of iteration. -/
abbrev Table := List (ℕ × List Value)

namespace Table

def row? (d : Table) (k : ℕ) : Option (List Value) :=
  (d.find? fun e => e.1 = k).map Prod.snd

/-- The items of the dictionary in another order. -/
def inOrder (order : List ℕ) (d : Table) : Table :=
  order.filterMap fun k => d.find? fun e => e.1 = k

/-- `d[k] = row`. -/
def set (k : ℕ) (row : List Value) : Table → Table
  | [] => [(k, row)]
  | e :: d => if e.1 = k then (k, row) :: d else e :: set k row d

/-- `d[k].append(v)` for each of `vs`. -/
def append (k : ℕ) (vs : List Value) : Table → Table
  | [] => []
  | e :: d => if e.1 = k then (k, e.2 ++ vs) :: d else e :: append k vs d

end Table

/-- What the function asks the system for: `find_mnt_pt`, and 95% of the free bytes of
a mount point, truncated. -/
structure Env where
  findMntPt : Text → Text
  avail : Text → ℤ

/-! ## Reading the profile -/

/-- `int(usrmaxflsz[0:-1]) * self.bytes[usrmaxflsz[-1]]`. -/
def filesize (text : Text) : Except Failure ℤ :=
  if text.dropLast.isEmpty then .error .valueError
  else
    match text.getLast?.bind bytes with
    | none => .error .keyError
    | some unit => .ok (numeral text.dropLast * unit)

/-- `fsno`, once it is bound, and `d`. -/
abbrev Scan := Option ℕ × Table

def Scan.append (st : Scan) (vs : List Value) : Except Failure Scan :=
  match st.1 with
  | none => .error .unboundLocal
  | some fsno => .ok (some fsno, st.2.append fsno vs)

/-- What the loop over the lines does at a match. -/
def scan (env : Env) (st : Scan) : Token → Except Failure Scan
  | .header fsno => .ok (some fsno, st.2.set fsno [])
  | .location path =>
      let mntpt := env.findMntPt path
      st.append [.path mntpt, .num (env.avail mntpt)]
  | .numFiles n => st.append [.num n]
  | .maxFilesize text => do st.append [.num (← filesize text)]

def readProfile (env : Env) (usrfl : Text) : Except Failure Scan :=
  ((usrfl.splitOn '\n').flatMap tokens).foldlM (scan env) (none, [])

/-! ## Fitting the files to the disk -/

/-- `while d[k][2] * d[k][3] >= d[k][1]: d[k][2] -= 1`. -/
def shrink : ℕ → ℤ → ℤ → ℤ → Except Failure ℤ
  | 0, _, _, _ => .error .outOfFuel
  | fuel + 1, avail, size, n =>
      if n * size ≥ avail then shrink fuel avail size (n - 1) else .ok n

/-- The body of the loop over `k1`, for a section on `mntpt` that takes `cost` bytes. -/
def chargeRow (mntpt : Value) (cost : ℤ) : List Value → Except Failure (List Value)
  | [] => .error .indexError
  | v :: rest =>
      if v = mntpt then
        match rest with
        | [] => .error .indexError
        | .path _ :: _ => .error .illTyped
        | .num avail :: rest => .ok (v :: .num (avail - cost) :: rest)
      else .ok (v :: rest)

def charge (mntpt : Value) (cost : ℤ) (d : Table) : Except Failure Table :=
  d.mapM fun e => do return (e.1, ← chargeRow mntpt cost e.2)

/-- The body of the loop over `k`. -/
def visit (fuel : ℕ) (d : Table) (k : ℕ) : Except Failure Table :=
  match d.row? k with
  | none => .error .keyError
  | some (mntpt :: .num avail :: .num n :: .num size :: rest) => do
      let n ← shrink fuel avail size n
      let (n, size) := if n = 0 then (1, avail) else (n, size)
      charge mntpt (n * size) (d.set k (mntpt :: .num avail :: .num n :: .num size :: rest))
  | some (_ :: _ :: _ :: _ :: _) => .error .illTyped
  | some _ => .error .indexError

/-- `order` is the order of `d.keys()`, which Python leaves open. -/
def setFfsbParams (fuel : ℕ) (env : Env) (order : List ℕ) (usrfl : Text) :
    Except Failure Table := do
  let (_, d) ← readProfile env usrfl
  order.foldlM (visit fuel) (d.inOrder order)

/-! ## Rewriting the profile -/

/-- `str` of an element. -/
def Value.str : Value → Text
  | .path mntpt => mntpt
  | .num z => (toString z).toList

/-- `params[fsno][i]`. -/
def column (params : Table) (fsno i : ℕ) : Except Failure Value :=
  match params.row? fsno with
  | none => .error .keyError
  | some row =>
      match row[i]? with
      | none => .error .indexError
      | some v => .ok v

/-- The line written for a line of a section, with a new directory of that name. The pattern for
`num_files` takes any value here. -/
def newLine (params : Table) (dirnm : Text) (fsno : ℕ) (line : Text) : Except Failure Text :=
  if (matchLocation line).isSome then
    .ok (line ++ (if line.getLast? = some '/' then [] else ['/']) ++ dirnm)
  else if (after "num_files=".toList line).isSome then do
    return line.takeWhile (· ≠ '=') ++ '=' :: (← column params fsno 2).str
  else if (matchMaxFilesize line).isSome then do
    return line.takeWhile (· ≠ '=') ++ '=' :: (← column params fsno 3).str
  else .ok line

/-- `fsno`, the number of directories made and the text written so far. -/
structure Rewrite where
  fsno : ℕ
  dirs : ℕ
  sysfl : Text

/-- `fsno` at a line. -/
def fsnoAt (fsno : ℕ) (line : Text) : ℕ :=
  match matchHeader line with
  | some (.header fsno) => fsno
  | _ => fsno

/-- The body of the loop over the lines. `dirnm` are the random names for which there is no
directory yet, one for each location. -/
def rewriteLine (params : Table) (dirnm : ℕ → Text) (w : Rewrite) (line : Text) :
    Except Failure Rewrite := do
  let fsno := fsnoAt w.fsno line
  let dirs := if (matchLocation line).isSome then w.dirs + 1 else w.dirs
  let newline ← newLine params (dirnm w.dirs) fsno line
  return ⟨fsno, dirs, w.sysfl ++ newline ++ ['\n']⟩

/-- The text of the profile that `dup_ffsb_profilefl` writes. -/
def dupFfsbProfilefl (fuel : ℕ) (env : Env) (order : List ℕ) (dirnm : ℕ → Text) (usrfl : Text) :
    Except Failure Text := do
  let params ← setFfsbParams fuel env order usrfl
  let w ← (usrfl.splitOn '\n').foldlM (rewriteLine params dirnm) ⟨0, 0, []⟩
  return w.sysfl

end AutotestClient.Ffsb
