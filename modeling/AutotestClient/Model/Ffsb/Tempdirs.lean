import AutotestClient.Model.Ffsb
import AutotestClient.Shared.Machine

/-! # The directories of the FFSB wrapper

`dup_ffsb_profilefl` makes a directory of a random name at each location, and `postprocess` removes
what is recorded in `tempdirs`. That list belongs to the class, and stays from one test of a process
to the next. -/

namespace AutotestClient.Ffsb

/-- A call of `os.makedirs`, and whether the directory was there before it. -/
structure Creation where
  path : Text
  existed : Bool
  deriving DecidableEq

/-- The directories there are, by their components, the class attribute `tempdirs`, and the calls of
`os.makedirs` and `shutil.rmtree` so far. -/
structure Process where
  dirs : List (List Text)
  tempdirs : List Text
  created : List Creation
  removed : List Text

/-- `ffsbdir` for a location and a random name. -/
def ffsbdir (path dirnm : Text) : Text :=
  path ++ (if path.getLast? = some '/' then [] else ['/']) ++ dirnm

/-- `os.path.exists`; `resolve` tells which directory a path names. -/
def Process.exists (p : Process) (resolve : Text → List Text) (path : Text) : Bool :=
  p.dirs.contains (resolve path)

/-- `os.makedirs`: the directory and those above it. -/
def Process.makedirs (p : Process) (resolve : Text → List Text) (path : Text) : Process :=
  { p with
    dirs := p.dirs ++ (resolve path).inits
    created := p.created ++ [⟨path, p.exists resolve path⟩] }

/-- The `while True` loop at a location, from the random name with number `n` on: the process, the
name used and the number of the next one. -/
def makeTempdir (resolve : Text → List Text) (names : ℕ → Text) (path : Text) :
    ℕ → ℕ → Process → Process × Option (Text × ℕ)
  | 0, _, p => (p, none)
  | fuel + 1, n, p =>
      let dir := ffsbdir path (names n)
      let p := { p with tempdirs := p.tempdirs ++ [dir] }
      if p.exists resolve dir then makeTempdir resolve names path fuel (n + 1) p
      else (p.makedirs resolve dir, some (names n, n + 1))

/-- The path of a location line. -/
def location? (line : Text) : Option Text :=
  match matchLocation line with
  | some (.location path) => some path
  | _ => none

/-- The loop of `dup_ffsb_profilefl` over the lines, with `fsno` and the number of the next random
name. An exception ends the loop, but what was made and recorded stays. -/
def dupLines (resolve : Text → List Text) (names : ℕ → Text) (fuel : ℕ) (params : Table) :
    List Text → ℕ → ℕ → Process → Process × Option Failure
  | [], _, _, p => (p, none)
  | line :: lines, fsno, n, p =>
      let fsno := fsnoAt fsno line
      match location? line with
      | some path =>
          match makeTempdir resolve names path (fuel + 1) n p with
          | (p, none) => (p, some .outOfFuel)
          | (p, some (_, n)) => dupLines resolve names fuel params lines fsno n p
      | none =>
          match newLine params [] fsno line with
          | .error e => (p, some e)
          | .ok _ => dupLines resolve names fuel params lines fsno n p

/-- The loop of `postprocess`. `shutil.rmtree` of a directory that is not there raises an
exception. -/
def rmtreeAll (resolve : Text → List Text) : List Text → Process → Process
  | [], p => p
  | l :: ls, p =>
      let p' := { p with removed := p.removed ++ [l] }
      if p.exists resolve l then
        rmtreeAll resolve ls { p' with dirs := p.dirs.filter fun d => !(resolve l).isPrefixOf d }
      else p'

/-- What a test meets: the profile, the disks, the random names, and whether the command `ffsb`
succeeds. -/
structure FfsbRun where
  usrfl : Text
  env : Env
  order : List ℕ
  names : ℕ → Text
  succeeds : Bool

/-- A test: `run_once`, which may raise an exception, and `postprocess`, which does so if the
command has failed. -/
def runTest (resolve : Text → List Text) (fuel : ℕ) (r : FfsbRun) (p : Process) : Process :=
  match setFfsbParams fuel r.env r.order r.usrfl with
  | .error _ => p
  | .ok params =>
      match dupLines resolve r.names fuel params (r.usrfl.splitOn '\n') 0 0 p with
      | (p, some _) => p
      | (p, none) => if r.succeeds then rmtreeAll resolve p.tempdirs p else p

/-- The tests of a process, one after the other. -/
def process (resolve : Text → List Text) (fuel : ℕ) (dirs : List (List Text)) :
    Shared.Machine Process FfsbRun where
  init := ⟨dirs, [], [], []⟩
  step p r := some (runTest resolve fuel r p)

end AutotestClient.Ffsb
