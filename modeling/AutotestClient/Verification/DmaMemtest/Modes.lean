import AutotestClient.Model.DmaMemtest
import AutotestClient.Verification.Tsc.Text
import Mathlib.Data.Finset.Max
import Mathlib.Data.List.DropRight

/-! # Both modes count the same copies

The parallel mode looks for the copy under the name of the tarball without its extension, but takes
the characters of the extension away at both ends of the name. -/

namespace AutotestClient.DmaMemtest

open Tsc (pyStrip pyStrip_eq_nil_iff pyStrip_eq_self_iff)

variable {diff : Tree → Tree → Diff} {name dir : Text} {orig tree : Tree}

/-- The number of copies that differ. -/
def differing (orig : Tree) (copy : ℕ → Tree) (n : ℕ) : ℕ :=
  (List.range n).countP fun j => decide (copy j ≠ orig)

/-- Both modes count the copies that differ, whatever becomes of the copies. -/
def SameVerdict (diff : Tree → Tree → Diff) (tarball top : Text) (orig : Tree) : Prop :=
  ∀ n copy, runOnce diff ⟨tarball, true, n, 0⟩ top orig copy = differing orig copy n ∧
    runOnce diff ⟨tarball, false, n, 0⟩ top orig copy = differing orig copy n

/-- `diff -rN` prints something, and has a status, exactly if the trees differ. -/
structure Compares (diff : Tree → Tree → Diff) : Prop where
  output : ∀ a b, (diff a b).output ≠ [] ↔ b ≠ a
  status : ∀ a b, (diff a b).status ≠ 0 ↔ b ≠ a

/-! ## Trees -/

theorem subtree_under (hname : name ≠ []) : subtree name (under name tree) = tree := by
  ext ⟨path, content⟩
  simp [subtree, under, hname]

theorem subtree_under_of_ne {sub : Text} (hsub : sub ≠ []) (hne : sub ≠ name) :
    subtree sub (under name tree) = ∅ := by
  simp [subtree, under, hsub, Finset.filter_image, hne.symm]

/-- No tree with files is an entry of itself. -/
theorem under_ne_self (hne : tree ≠ ∅) : under name tree ≠ tree := by
  intro heq
  obtain ⟨e, he, hmin⟩ := Finset.exists_min_image tree (fun e => e.1.length)
    (Finset.nonempty_iff_ne_empty.mpr hne)
  rw [← heq, under, Finset.mem_image] at he
  obtain ⟨e', he', rfl⟩ := he
  have hle := hmin e' he'
  rw [List.length_cons] at hle
  omega

theorem under_eq_empty : under name tree = ∅ ↔ tree = ∅ := Finset.image_eq_empty

/-! ## The name -/

/-- The characters taken away. -/
def strips (c : Char) : Bool := ".tar.bz2".toList.contains c

theorem basename_append (hname : '/' ∉ name) : basename (dir ++ '/' :: name) = name := by
  have hreverse : '/' ∉ name.reverse := mt List.mem_reverse.mp hname
  rw [basename, List.reverse_append, List.reverse_cons, List.append_assoc, List.singleton_append,
    (Shared.takeWhile_ne_append hreverse).1, List.reverse_reverse]

theorem topDir_append (hname : '/' ∉ name) :
    topDir (dir ++ '/' :: (name ++ ".tar.bz2".toList)) = pyStrip strips name := by
  have hslash : '/' ∉ name ++ ".tar.bz2".toList := by
    rw [List.mem_append, not_or]
    exact ⟨hname, by decide⟩
  have hext : ∀ c ∈ ".tar.bz2".toList, strips c := List.all_eq_true.mp (by decide)
  rw [topDir, basename_append hslash]
  show pyStrip strips (name ++ ".tar.bz2".toList) = pyStrip strips name
  rw [pyStrip, pyStrip, List.dropWhile_append]
  split_ifs with hall
  · -- nothing of the name is left, and then nothing of the extension
    rw [List.isEmpty_iff.mp hall, List.dropWhile_eq_nil_iff.mpr hext]
  · rw [List.reverse_append, List.dropWhile_append_of_pos fun c hc => hext c (List.mem_reverse.mp hc)]

/-! ## Counting -/

theorem foldl_count {α : Type*} (p : α → Prop) [DecidablePred p] (l : List α) (n : ℕ) :
    l.foldl (fun n x => if p x then n + 1 else n) n = n + l.countP p := by
  induction l generalizing n with
  | nil => rfl
  | cons x l ih =>
      rw [List.foldl_cons, ih, List.countP_cons]
      by_cases hx : p x
      · simp [hx]
        omega
      · simp [hx]

theorem runOnce_sequential (h : Compares diff) (tarball top : Text) (n : ℕ) (copy : ℕ → Tree) :
    runOnce diff ⟨tarball, false, n, 0⟩ top orig copy = differing orig copy n := by
  rw [runOnce, differing]
  simp only [Bool.false_eq_true, if_false, foldl_count, Nat.zero_add, unpacked, h.status]

theorem runOnce_parallel (h : Compares diff) (tarball top : Text) (n : ℕ) (copy : ℕ → Tree) :
    runOnce diff ⟨tarball, true, n, 0⟩ top orig copy =
      differing orig (fun j => subtree (topDir tarball) (under top (copy j))) n := by
  rw [runOnce, differing]
  simp only [if_true, foldl_count, Nat.zero_add, unpacked, List.countP_map, Function.comp_def,
    h.output]

theorem differing_one (copy : ℕ → Tree) : differing orig copy 1 = 0 ↔ copy 0 = orig := by
  simp [differing]

/-- The modes agree exactly if the name neither starts nor ends with a character of the extension.
A name of such characters only stands for the whole directory, which is right if the tree has no
files. -/
theorem modes_agree_iff (diff : Tree → Tree → Diff) (h : Compares diff) (dir name : Text)
    (hne : name ≠ []) (hslash : '/' ∉ name) (orig : Tree) :
    SameVerdict diff (dir ++ '/' :: (name ++ ".tar.bz2".toList)) name orig ↔
      ((∀ c ∈ name.head?, strips c = false) ∧ ∀ c ∈ name.getLast?, strips c = false) ∨
        (∀ c ∈ name, strips c) ∧ orig = ∅ := by
  have hverdict : SameVerdict diff (dir ++ '/' :: (name ++ ".tar.bz2".toList)) name orig ↔
      ∀ n copy, differing orig (fun j => subtree (pyStrip strips name) (under name (copy j))) n =
        differing orig copy n := by
    simp only [SameVerdict, runOnce_parallel h, runOnce_sequential h, topDir_append hslash,
      and_true]
  rw [hverdict, ← pyStrip_eq_self_iff, ← pyStrip_eq_nil_iff]
  constructor
  · intro hall
    have hone (tree : Tree) : subtree (pyStrip strips name) (under name tree) = orig ↔
        tree = orig := by
      have hcopy : differing orig (fun _ => tree) 1 = 0 ↔ tree = orig := differing_one fun _ => tree
      rw [← hcopy, ← hall 1 fun _ => tree, differing_one]
    by_cases hself : pyStrip strips name = name
    · exact .inl hself
    · by_cases hnil : pyStrip strips name = []
      · refine .inr ⟨hnil, ?_⟩
        by_contra hempty
        have hsame := (hone orig).mpr rfl
        rw [hnil, subtree, if_pos rfl] at hsame
        exact under_ne_self hempty hsame
      · -- the directory compared does not exist
        simp only [subtree_under_of_ne hnil hself] at hone
        have hempty : ∅ = orig := (hone orig).mpr rfl
        have hfile := (hone {([], [])}).mp hempty
        rw [← hempty] at hfile
        exact absurd hfile (Finset.singleton_ne_empty _)
  · rintro (hself | ⟨hnil, rfl⟩) n copy
    · rw [hself]
      simp only [subtree_under hne]
    · rw [hnil]
      simp only [differing, subtree, if_true, ne_eq, under_eq_empty]

/-- A `diff` that prints a line. -/
def compare (a b : Tree) : Diff := if b = a then ⟨[], 0⟩ else ⟨"diff -U3 -rN\n".toList, 1⟩

theorem compares_compare : Compares compare := by
  constructor
  · intro a b
    rw [compare]
    split_ifs with heq
    · simp [heq]
    · simp [heq]
  · intro a b
    rw [compare]
    split_ifs with heq
    · simp [heq]
    · simp [heq]

def makefile : Tree := {(["Makefile".toList], "VERSION = 2".toList)}

theorem modes_agree_linux :
    SameVerdict compare "/cache/linux-2.6.18.tar.bz2".toList "linux-2.6.18".toList makefile := by
  refine (modes_agree_iff compare compares_compare "/cache".toList "linux-2.6.18".toList (by decide)
    (by decide) makefile).mpr (.inl ⟨fun c hc => ?_, fun c hc => ?_⟩)
  · obtain rfl := Option.some.inj hc
    decide
  · obtain rfl := Option.some.inj hc
    decide

/-- The parallel mode compares with `linux-2.6`, which does not exist, and finds a difference in an
intact copy. -/
theorem modes_differ :
    ¬SameVerdict compare "/cache/linux-2.6.22.tar.bz2".toList "linux-2.6.22".toList makefile := by
  intro h
  have hone := (h 1 fun _ => makefile).1
  exact absurd hone (by decide +kernel)

end AutotestClient.DmaMemtest
