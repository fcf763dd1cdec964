import AutotestClient.Shared.PathTree

/-! # Directories of a testcase

`tc_check_or_create_dir` and the `rm -rf $REMOVE_DIRS` of `tc_internal_cleanup`. Directories are
given by their names from the root on, which have no blanks. -/

namespace AutotestClient.Harness.Directories

open Shared

abbrev Path := List String

/-- The directories that exist, `REMOVE_DIRS` and `TST_COUNT`. -/
structure State where
  tree : PathTree String
  removeDirs : List Path
  tstCount : ℤ

/-- `tc_check_or_create_dir dir`. The first line that `mkdir -pv` prints is about the topmost
directory it makes. -/
def tcCheckOrCreateDir (dir : Path) (s : State) : State :=
  if dir ∈ s.tree.paths then s
  else
    { s with
      tree := s.tree.make dir
      removeDirs := s.removeDirs ++ (s.tree.missing dir).head?.toList }

/-- What a testcase and its `tc_local_cleanup` do. -/
inductive Action where
  | checkOrCreate (dir : Path)
  /-- `mkdir -p` of the testcase itself. -/
  | mkdir (dir : Path)
  /-- `rm -rf` of the testcase itself. -/
  | remove (dir : Path)
  /-- `tc_register`. -/
  | register
  deriving DecidableEq

def Action.run (s : State) : Action → State
  | .checkOrCreate dir => tcCheckOrCreateDir dir s
  | .mkdir dir => { s with tree := s.tree.make dir }
  | .remove dir => { s with tree := s.tree.remove [dir] }
  | .register => { s with tstCount := s.tstCount + 1 }

/-- `tc_internal_cleanup` after `tc_local_cleanup`, without the harness's own `$TC_SAVE` and
`$TC_MYTMP`: with tests that were not executed it exits before the directories are removed. -/
def tcInternalCleanup (tstTotal : ℤ) (s : State) : PathTree String :=
  if s.tstCount < tstTotal then s.tree else s.tree.remove s.removeDirs

/-- The directories at the end of a testcase that starts with the given ones. -/
def directories (tstTotal : ℤ) (actions : List Action) (t : PathTree String) : PathTree String :=
  tcInternalCleanup tstTotal (actions.foldl Action.run ⟨t, [], 0⟩)

end AutotestClient.Harness.Directories
