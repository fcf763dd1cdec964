import AutotestClient.Model.Harness.Lifecycle
import AutotestClient.Model.Harness.OnlyOnce
import AutotestClient.Shared.Once
import AutotestClient.Verification.Harness.Arrays

/-! # Which testcases are taken for repeats

The tag keeps what comes after the last slash of the whole command line, so that the arguments can
hide the script, and one argument can pass for two. -/

namespace AutotestClient.Harness

open Shared

variable {touches : List Char → Bool} {tmpbase u v : List Char} {i j : Invocation}
  {files : List (List Char)} {calls : List Invocation}

/-! ## The same testcase -/

/-- The same script and the same arguments. -/
def Invocation.Same (i j : Invocation) : Prop :=
  afterLastSlash i.script = afterLastSlash j.script ∧ i.args = j.args

instance (i j : Invocation) : Decidable (i.Same j) := inferInstanceAs (Decidable (_ ∧ _))

theorem equivalence_same : Equivalence Invocation.Same where
  refl _ := ⟨rfl, rfl⟩
  symm h := ⟨h.1.symm, h.2.symm⟩
  trans h h' := ⟨h.1.trans h'.1, h.2.trans h'.2⟩

/-! ## Tags -/

/-- The command line with single spaces. -/
def Invocation.line (i : Invocation) : List Char :=
  [' '].intercalate (i.script :: words isBlank i.tcArgs)

/-- What the command line has after its last slash, blanks and underscores taken for the same. -/
def Invocation.label (i : Invocation) : List Char := noSpaces (afterLastSlash i.line)

/-- The script is one word and no option of `echo`, and no word of the command line nor the path of
the file is a pattern that names files. -/
@[mk_iff]
structure Invocation.Quiet (tmpbase : List Char) (i : Invocation) : Prop where
  script : OneWord i.sh i.script
  option : isEchoOption i.script = false
  args : ∀ w ∈ words isBlank i.tcArgs, i.sh.glob w = [w]
  marker : OneWord i.sh (marker tmpbase i.label)

instance (tmpbase : List Char) (i : Invocation) : Decidable (i.Quiet tmpbase) :=
  decidable_of_iff' _ (Invocation.quiet_iff tmpbase i)

theorem afterLastSlash_append :
    afterLastSlash (u ++ v) = if '/' ∈ v then afterLastSlash v else afterLastSlash u ++ v := by
  simp only [afterLastSlash, List.reverse_append]
  split_ifs with hslash
  · have hstop : ¬(v.reverse.takeWhile (· ≠ '/')).length = v.reverse.length := by
      intro hall
      have hself := (List.takeWhile_sublist _).eq_of_length hall
      have hnone := List.takeWhile_eq_self_iff.mp hself '/' (List.mem_reverse.mpr hslash)
      exact absurd rfl (of_decide_eq_true hnone)
    rw [List.takeWhile_append, if_neg hstop]
  · have hnone : ∀ c ∈ v.reverse, decide (c ≠ '/') = true := by
      intro c hc
      exact decide_eq_true fun heq => hslash (List.mem_reverse.mp (heq ▸ hc))
    rw [List.takeWhile_append_of_pos hnone, List.reverse_append, List.reverse_reverse]

theorem Invocation.Same.label_eq (h : i.Same j) : i.label = j.label := by
  have hargs : i.tcArgs = j.tcArgs := by rw [tcArgs, tcArgs, h.2]
  rw [label, label, line, line, hargs]
  cases words isBlank j.tcArgs with
  | nil => simp only [List.intercalate_singleton, h.1]
  | cons w ws =>
      simp only [List.intercalate_cons_cons, List.append_assoc, afterLastSlash_append, h.1]

theorem Invocation.Quiet.tag_eq (h : i.Quiet tmpbase) : i.tag = i.label := by
  have hsplit : i.sh.split i.script ++ i.sh.split i.tcArgs =
      i.script :: words isBlank i.tcArgs := by
    rw [h.script.split_eq, Shell.split_of_names h.args, List.singleton_append]
  have hline : '\n' ∉ i.line := by
    apply not_mem_intercalate (by decide)
    rw [List.forall_mem_cons]
    constructor
    · intro hmem
      exact absurd (h.script.blank _ hmem) (by decide)
    · intro w hw hmem
      exact absurd (not_of_mem_words hw _ hmem) (by decide)
  have hlast : i.line.rdropWhile (· = '\n') = i.line :=
    rdropWhile_of_forall fun _ hc => decide_eq_false fun heq => hline (heq ▸ hc)
  rw [tag, hsplit, Shell.echo_cons h.option, ← Invocation.line,
    List.rdropWhile_concat_pos _ _ _ (by decide), hlast, label]

/-! ## Runs -/

/-- The files after these testcases. -/
def filesAfter (touches : List Char → Bool) (tmpbase : List Char) (calls : List Invocation) :
    List (List Char) :=
  calls.foldl (fun files i => (tcRunMeOnlyOnce touches tmpbase true files i).files) []

/-- Exactly the repeats are skipped. -/
def SkipsRepeats (touches : List Char → Bool) (tmpbase : List Char) (calls : List Invocation) :
    Prop :=
  ∀ before i after, calls = before ++ i :: after →
    ((tcRunMeOnlyOnce touches tmpbase true (filesAfter touches tmpbase before) i).exits ↔
      ∃ j ∈ before, j.Same i)

/-- The file of a testcase. -/
def Invocation.key (tmpbase : List Char) (i : Invocation) : List Char := marker tmpbase i.label

/-- One call, seen from its file. -/
theorem Invocation.Quiet.call_eq (h : i.Quiet tmpbase) :
    (tcRunMeOnlyOnce touches tmpbase true files i).files = mark (key tmpbase) touches files i ∧
      ((tcRunMeOnlyOnce touches tmpbase true files i).exits ↔ i.key tmpbase ∈ files) := by
  have hpaths : i.sh.split (Harness.marker tmpbase i.tag) = [i.key tmpbase] := by
    rw [h.tag_eq, h.marker.split_eq, key]
  rw [tcRunMeOnlyOnce, mark]
  simp only [hpaths]
  by_cases hmem : i.key tmpbase ∈ files
  · simp [hmem]
  · simp [hmem]

theorem filesAfter_eq (h : ∀ i ∈ calls, i.Quiet tmpbase) :
    filesAfter touches tmpbase calls = marksAfter (Invocation.key tmpbase) touches calls := by
  induction calls using List.reverseRecOn with
  | nil => rfl
  | append_singleton calls i ih =>
      rw [List.forall_mem_append, List.forall_mem_singleton] at h
      rw [marksAfter_concat, ← ih h.1, filesAfter, List.foldl_append]
      exact h.2.call_eq.1

/-- The repeats are skipped, and nothing else, exactly if testcases whose command lines agree after
their last slash are the same, and repeated testcases have a file. -/
theorem onlyOnce_skips_repeats_iff (touches : List Char → Bool) (tmpbase : List Char)
    (calls : List Invocation) (hquiet : ∀ i ∈ calls, i.Quiet tmpbase) :
    SkipsRepeats touches tmpbase calls ↔
      calls.Pairwise fun j i =>
        (j.label = i.label → touches (marker tmpbase i.label) → j.Same i) ∧
          (j.Same i → touches (marker tmpbase i.label)) := by
  have hkeys (i j : Invocation) : i.key tmpbase = j.key tmpbase ↔ i.label = j.label := by
    rw [Invocation.key, Invocation.key, marker, marker, List.append_cancel_left_eq]
  have hmarks : SkipsRepeats touches tmpbase calls ↔
      MarksRepeats (Invocation.key tmpbase) touches Invocation.Same calls := by
    unfold SkipsRepeats MarksRepeats
    refine forall₃_congr fun before i after => forall_congr' fun heq => ?_
    rw [heq, List.forall_mem_append, List.forall_mem_cons] at hquiet
    rw [hquiet.2.1.call_eq.2, filesAfter_eq hquiet.1]
  rw [hmarks, marksRepeats_iff equivalence_same]
  · simp only [hkeys]
    rfl
  · intro i j hsame
    exact (hkeys i j).mpr hsame.label_eq

/-- Anything but a directory can be made a file. -/
def touchesFile (path : List Char) : Bool :=
  !List.contains [[], ".".toList, "..".toList] (afterLastSlash path)

def invoked (script : String) (args : List String) : Invocation :=
  ⟨script.toList, args.map String.toList, plainShell,
    tcSetup ⟨4711, 1, true, fun _ => "", [], [], []⟩⟩

/-- A scenario with a testcase listed twice and another with other options. -/
def scenario : List Invocation :=
  [invoked "/opt/fiv/elfutils.sh" ["-v"], invoked "/opt/fiv/fontcheck.sh" [],
    invoked "fontcheck.sh" ["-q"], invoked "elfutils.sh" ["-v"]]

theorem onlyOnce_skips_repeats_scenario :
    (∀ i ∈ scenario, i.Quiet "/tmp".toList) ∧ SkipsRepeats touchesFile "/tmp".toList scenario := by
  have hquiet : ∀ i ∈ scenario, i.Quiet "/tmp".toList := by decide +kernel
  exact ⟨hquiet, (onlyOnce_skips_repeats_iff _ _ _ hquiet).mpr (by decide +kernel)⟩

/-- Two scripts whose last argument ends in the same file name. -/
theorem onlyOnce_skips_other :
    ¬SkipsRepeats touchesFile "/tmp".toList
      [invoked "/opt/fiv/a.sh" ["/tmp/x"], invoked "/opt/fiv/b.sh" ["/etc/x"]] := by
  intro h
  have hskip := h [invoked "/opt/fiv/a.sh" ["/tmp/x"]] (invoked "/opt/fiv/b.sh" ["/etc/x"]) [] rfl
  exact absurd (hskip.mp (by decide +kernel)) (by decide +kernel)

end AutotestClient.Harness
