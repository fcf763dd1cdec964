import AutotestClient.Shared.Numeral
import AutotestClient.Shared.Words

/-! # Remembering the type of a filesystem

`initialize`, `_device_to_fstype` and `cleanup` of `parallel_dd/parallel_dd.py`. -/

namespace AutotestClient.ParallelDd

open Shared (isSpace words)

abbrev Text := List Char

inductive Failure where
  /-- `line.split()[2]`. -/
  | indexError
  deriving DecidableEq

/-- What `egrep ^device file` prints, where `finds device line` tells whether it finds a line. If
it finds none, its status is a `CmdError`. -/
def egrep (finds : Text → Text → Bool) (device : Text) (file : List Text) : Option Text :=
  match file.filter (finds device) with
  | [] => none
  | line :: lines => some (['\n'].intercalate (line :: lines))

/-- `_device_to_fstype(file, device)` of a test of `fsDevice`. -/
def deviceToFstype (finds : Text → Text → Bool) (fsDevice : Text) (file : List Text)
    (device : Text) : Except Failure (Option Text) :=
  let device := if device = [] then fsDevice else device
  match egrep finds device file with
  | none => .ok none
  | some line =>
      match (words isSpace line)[2]? with
      | none => .error .indexError
      | some fstype => .ok (some fstype)

/-- The attributes for the types, with one that is set in the place of `old_fstype`. -/
structure Test where
  fstype : Text
  oldFstype : Text
  oldFstpye : Option (Option Text)

/-- `initialize`, where `rootFsDevice` is what `df` prints for the root. -/
def initializeTest (finds : Text → Text → Bool) (fsDevice rootFsDevice fstype : Text)
    (mtab fstab : List Text) : Except Failure Test := do
  let rootFstype ← deviceToFstype finds fsDevice fstab rootFsDevice
  let fstype := if fstype = [] then rootFstype.getD fstype else fstype
  let oldFstype ← deviceToFstype finds fsDevice mtab []
  match oldFstype with
  | none =>
      let oldFstpye ← deviceToFstype finds fsDevice fstab []
      .ok ⟨fstype, fstype, some oldFstpye⟩
  | some oldFstype => .ok ⟨fstype, oldFstype, none⟩

/-- The type that `cleanup` passes to `mkfs`. -/
def cleanupFstype (t : Test) : Text := t.oldFstype

end AutotestClient.ParallelDd
