import AutotestClient.Shared.Lines
import AutotestClient.Shared.Numeral
import AutotestClient.Shared.Words
import Mathlib.Data.List.Infix

/-! # Installing a kernel from koji

`_kernel_install_koji` of `kernelinstall/kernelinstall.py`, up to its call of
`_kernel_install_rpm`. -/

namespace AutotestClient.KernelInstall

open Shared (isSpace osPathJoin words)

abbrev Text := List Char

/-- `utils_koji.KojiPkgSpec`. -/
structure KojiPkgSpec where
  tag : Text
  package : Text
  subpackages : List Text
  deriving DecidableEq

inductive Failure where
  /-- `get_pkg_rpm_file_names(k_dep)[0]`. -/
  | indexError
  /-- `for sub_pkg in None`. -/
  | typeError
  /-- `kernel_rpm` was never assigned. -/
  | unboundLocalError
  deriving DecidableEq

/-- The arguments of `_kernel_install_rpm`. -/
structure RpmInstall where
  rpmFile : Text
  kernelDepsRpms : Text
  needReboot : Bool
  deriving DecidableEq

/-- The loop over the dependencies. `fileNames` is `get_pkg_rpm_file_names` of the client. -/
def addDeps (fileNames : KojiPkgSpec → List Text) (bindir kojiTag : Text) :
    List Text → Text → Except Failure Text
  | [], depsRpms => .ok depsRpms
  | p :: ps, depsRpms =>
      match fileNames ⟨kojiTag, p, [p]⟩ with
      | [] => .error .indexError
      | file :: _ => addDeps fileNames bindir kojiTag ps (depsRpms ++ ' ' :: osPathJoin bindir file)

/-- The loop over the packages of the kernel, with `sub_pkgs` split if it is not `None`. A package
with the name of a sub-package in its file name goes to `deps_rpms`, and another one becomes
`kernel_rpm`. -/
def addSubPkgs (bindir : Text) (subPkgs : Option (List Text)) :
    List Text → Text → Option Text → Except Failure (Text × Option Text)
  | [], depsRpms, kernelRpm => .ok (depsRpms, kernelRpm)
  | pkg :: pkgs, depsRpms, kernelRpm =>
      match subPkgs with
      | none => .error .typeError
      | some subs =>
          if subs.any fun subPkg => decide (subPkg <:+: pkg) then
            addSubPkgs bindir subPkgs pkgs (depsRpms ++ osPathJoin bindir pkg) kernelRpm
          else addSubPkgs bindir subPkgs pkgs depsRpms (some (osPathJoin bindir pkg))

/-- `dep_pkgs.split()`; nothing for `None`. -/
def splitPkgs (pkgs : Option Text) : List Text := (pkgs.map (words isSpace)).getD []

/-- The specification of the kernel. -/
def kernelSpec (kojiTag package : Text) (subPkgs : Option Text) : KojiPkgSpec :=
  ⟨kojiTag, package, package :: splitPkgs subPkgs⟩

def kernelInstallKoji (fileNames : KojiPkgSpec → List Text) (bindir kojiTag package : Text)
    (depPkgs : Option Text) (needReboot : Bool) (subPkgs : Option Text) :
    Except Failure RpmInstall := do
  let depsRpms ← addDeps fileNames bindir kojiTag (splitPkgs depPkgs) []
  let pkgs := fileNames (kernelSpec kojiTag package subPkgs)
  let (depsRpms, kernelRpm) ← addSubPkgs bindir (subPkgs.map (words isSpace)) pkgs depsRpms none
  match kernelRpm with
  | none => .error .unboundLocalError
  | some kernelRpm => .ok ⟨kernelRpm, depsRpms, needReboot⟩

end AutotestClient.KernelInstall
