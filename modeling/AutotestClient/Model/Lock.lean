import AutotestClient.Shared.Machine
import Mathlib.Logic.Function.Basic

/-! # The lock file of `tc_lock`

Any number of processes, told apart by their pids, call `tc_lock` on one lock file
(`linux-tools/shared/tc_utils.source`). Each step is one shell action of one process. -/

namespace AutotestClient.Lock

variable {P : Type*} [DecidableEq P]

/-- The lock file: the process whose redirection created it (`none` when it was left
over from earlier), and the pid written to it so far. -/
structure LockFile (P : Type*) where
  creator : Option P
  content : Option P
  deriving DecidableEq

/-- Where a process is in `tc_lock`. -/
inductive Pc where
  | idle
  | compare (testonly : Bool) (ctr : ℕ)
  | loop (ctr : ℕ)
  | create (ctr : ℕ)
  | write
  | ret (rc : ℕ)
  | exited
  deriving DecidableEq

/-- `holder p`: the last `tc_lock` of `p` to return 0 was not yet followed by a release. -/
structure State (P : Type*) where
  file : Option (LockFile P)
  pc : P → Pc
  holder : P → Bool

inductive Label (P : Type*) where
  | call (p : P) (testonly : Bool) (ctr : ℕ)
  | compare (p : P)
  | decrement (p : P)
  | create (p : P)
  | write (p : P)
  | ret (p : P)
  | release (p : P)
  deriving DecidableEq

/-- `[ "$$" = "$(<$lockfile)" ]`; a missing file reads as the empty string. -/
def State.reads (s : State P) (p : P) : Bool :=
  s.file.any fun f => decide (f.content = some p)

def State.goto (s : State P) (p : P) (pc : Pc) : State P :=
  { s with pc := Function.update s.pc p pc }

/-- `echo $$` through the descriptor opened by `create`: it reaches the lock file only
if that is still the file this process created. -/
def LockFile.echo (p : P) (f : LockFile P) : LockFile P :=
  if f.creator = some p then { f with content := some p } else f

/-- One shell action of `tc_lock`, or the `rm` by which a holder releases the lock. -/
def step (s : State P) : Label P → Option (State P)
  | .call p testonly ctr =>
      match s.pc p with
      -- `((ctr>0))` or the testcase is broken and exits
      | .idle => some (s.goto p (if 0 < ctr then .compare testonly ctr else .exited))
      | _ => none
  | .compare p =>
      match s.pc p with
      | .compare testonly ctr =>
          some (s.goto p (if s.reads p then .ret 0 else if testonly then .ret 2 else .loop ctr))
      | _ => none
  | .decrement p =>
      match s.pc p with
      | .loop 0 => some (s.goto p (.ret 1))
      | .loop (ctr + 1) => some (s.goto p (.create ctr))
      | _ => none
  | .create p =>
      match s.pc p with
      | .create ctr =>
          match s.file with
          | none => some { s.goto p .write with file := some ⟨some p, none⟩ }
          -- noclobber refuses to open an existing file: `sleep 1` and around the loop
          | some _ => some (s.goto p (.loop ctr))
      | _ => none
  | .write p =>
      match s.pc p with
      | .write => some { s.goto p (.ret 0) with file := s.file.map (LockFile.echo p) }
      | _ => none
  | .ret p =>
      match s.pc p with
      | .ret rc =>
          some { s.goto p .idle with
            holder := Function.update s.holder p (s.holder p || decide (rc = 0)) }
      | _ => none
  | .release p =>
      match s.pc p with
      | .idle =>
          if s.holder p then
            some { s with file := none, holder := Function.update s.holder p false }
          else none
      | _ => none

/-- All processes outside `tc_lock`, nobody a holder, and possibly an old lock file. -/
def machine (stale : Option (Option P)) : Shared.Machine (State P) (Label P) where
  init := ⟨stale.map (⟨none, ·⟩), fun _ => .idle, fun _ => false⟩
  step := step

/-- The attempt count given to the last call of `p`. -/
def lastCall (p : P) : List (State P × Label P) → Option ℕ
  | [] => none
  | (_, .call q _ ctr) :: h => if q = p then some ctr else lastCall p h
  | _ :: h => lastCall p h

/-- How often the last call of `p` has tried to create the lock file. -/
def attempts (p : P) : List (State P × Label P) → ℕ
  | [] => 0
  | (_, .call q _ _) :: h => if q = p then 0 else attempts p h
  | (_, .create q) :: h => if q = p then attempts p h + 1 else attempts p h
  | _ :: h => attempts p h

end AutotestClient.Lock
