import AutotestClient.Model.LtpDiff

/-! # When the verdict is right

A test that a run did not report is given the status `null`, so a run that reports that status
cannot be told from a run without the test. -/

namespace AutotestClient.LtpDiff

open Shared

/-- The last status that a results file reports for each test. -/
def results (file : Text) : Run := ((linesOf '\n' file).foldl readLine (∅, ∅)).1

def status? (file testname : Text) : Option Text := (results file).lookup testname

/-- The same tests with the same statuses. -/
def Identical (files : List Text) : Prop :=
  ∀ f ∈ files, ∀ f' ∈ files, ∀ t, status? f t = status? f' t

/-- The script exits with 0 exactly for identical results, and in whatever order they are given. -/
structure Decides (files : List Text) : Prop where
  identical : ltpDiff (files.map some) = 0 ↔ Identical files
  order : ∀ files' : List Text, files'.Perm files → ltpDiff (files'.map some) = ltpDiff (files.map some)

variable {t u : Text} {run : Run} {runs : List Run} {files : List Text}

/-! ## Filling in -/

/-- The status a run has in the comparison. -/
def shown (run : Run) (testname : Text) : Text := (run.lookup testname).getD "null".toList

theorem lookup_fill_self : (fill t run).lookup t = some (shown run t) := by
  rw [fill, shown]
  split_ifs with hmem
  · obtain ⟨s, hs⟩ := Option.isSome_iff_exists.mp (AList.lookup_isSome.mpr hmem)
    rw [hs]
    rfl
  · rw [AList.lookup_insert, AList.lookup_eq_none.mpr hmem]
    rfl

theorem shown_fill : shown (fill t run) u = shown run u := by
  by_cases heq : u = t
  · rw [heq, shown, lookup_fill_self]
    rfl
  · rw [shown, shown, fill]
    split_ifs with hmem
    · rfl
    · rw [AList.lookup_insert_ne heq]

/-- The loop over the runs finds a difference unless all show the status of the first. -/
theorem compareFrom_differ (run : Run) (runs : List Run) :
    (compareFrom t run runs).2 = false ↔ ∀ r ∈ runs, shown r t = shown run t := by
  induction runs generalizing run with
  | nil => simp [compareFrom]
  | cons next rest ih =>
      simp only [compareFrom, Bool.or_eq_false_iff, ih, decide_eq_false_iff_not, not_not,
        lookup_fill_self, Option.some.injEq, shown_fill, List.forall_mem_cons]
      refine and_congr_right fun heq => ?_
      rw [heq]

theorem compareFrom_shown (run : Run) (runs : List Run) (u : Text) :
    (compareFrom t run runs).1.map (shown · u) = (run :: runs).map (shown · u) := by
  induction runs generalizing run with
  | nil => rfl
  | cons next rest ih =>
      rw [compareFrom, List.map_cons, ih, shown_fill, List.map_cons, shown_fill]
      rfl

/-! ## The comparison -/

/-- All runs show the same status of the test. -/
def Agree (runs : List Run) (t : Text) : Prop := ∀ r ∈ runs, ∀ r' ∈ runs, shown r t = shown r' t

theorem agree_congr {runs' : List Run} (h : runs.map (shown · t) = runs'.map (shown · t)) :
    Agree runs t ↔ Agree runs' t := by
  have hall (runs : List Run) :
      Agree runs t ↔ ∀ s ∈ runs.map (shown · t), ∀ s' ∈ runs.map (shown · t), s = s' := by
    simp only [Agree, List.forall_mem_map]
  rw [hall, hall, h]

theorem compareTest_differ (runs : List Run) : (compareTest t runs).2 = false ↔ Agree runs t := by
  cases runs with
  | nil => simp [compareTest, Agree]
  | cons run runs =>
      rw [compareTest, compareFrom_differ]
      constructor
      · intro h
        have hfirst : ∀ r ∈ run :: runs, shown r t = shown run t :=
          List.forall_mem_cons.mpr ⟨rfl, h⟩
        exact fun r hr r' hr' => (hfirst r hr).trans (hfirst r' hr').symm
      · intro h r hr
        exact h r (List.mem_cons_of_mem run hr) run List.mem_cons_self

theorem compareTest_shown (runs : List Run) (u : Text) :
    (compareTest t runs).1.map (shown · u) = runs.map (shown · u) := by
  cases runs with
  | nil => rfl
  | cons run runs => exact compareFrom_shown run runs u

theorem visit_shown (c : Comparison) (u : Text) :
    (visit c t).runs.map (shown · u) = c.runs.map (shown · u) := by
  rw [visit]
  split_ifs
  · exact compareTest_shown c.runs u
  · exact compareTest_shown c.runs u

theorem visit_rc (c : Comparison) : (visit c t).rc = 0 ↔ Agree c.runs t ∧ c.rc = 0 := by
  rw [← compareTest_differ, visit]
  cases hdiffer : (compareTest t c.runs).2 with
  | true => simp
  | false => simp

theorem visit_rc_le (c : Comparison) (hrc : c.rc ≤ 1) : (visit c t).rc ≤ 1 := by
  rw [visit]
  split_ifs
  · exact le_rfl
  · exact hrc

/-- The loop over the names. What is filled in on the way does not change what is shown. -/
theorem foldl_visit_rc (ts : List Text) (c : Comparison) :
    (ts.foldl visit c).rc = 0 ↔ (∀ t ∈ ts, Agree c.runs t) ∧ c.rc = 0 := by
  induction ts generalizing c with
  | nil => simp
  | cons t ts ih =>
      have hagree (u : Text) : Agree (visit c t).runs u ↔ Agree c.runs u :=
        agree_congr (visit_shown c u)
      rw [List.foldl_cons, ih, visit_rc, List.forall_mem_cons]
      simp only [hagree]
      tauto

theorem foldl_visit_rc_le (ts : List Text) (c : Comparison) (hrc : c.rc ≤ 1) :
    (ts.foldl visit c).rc ≤ 1 := by
  induction ts generalizing c with
  | nil => exact hrc
  | cons t ts ih => exact ih (visit c t) (visit_rc_le c hrc)

theorem compareResults_rc (testnames : Testnames) (runs : List Run) :
    ((compareResults testnames runs).rc = 0 ↔ ∀ t ∈ testnames, Agree runs t) ∧
      (compareResults testnames runs).rc ≤ 1 := by
  have hrc (c : Comparison) :
      (if c.rc = 0 then { c with printed := c.printed ++ ["All LTP results are identical".toList] }
        else c).rc = c.rc := by
    split_ifs
    · rfl
    · rfl
  rw [compareResults]
  simp only [hrc]
  refine ⟨?_, foldl_visit_rc_le _ _ (Nat.zero_le 1)⟩
  rw [foldl_visit_rc, and_iff_left rfl]
  simp only [List.mem_insertionSort, AList.mem_keys]

/-! ## The files -/

/-- The names collected are those of the run, and those before. -/
theorem foldl_readLine (lines : List Text) (st : Run × Testnames) (names : Testnames)
    (hnames : ∀ t, t ∈ st.2 ↔ t ∈ st.1 ∨ t ∈ names) :
    ∀ t, t ∈ (lines.foldl readLine st).2 ↔ t ∈ (lines.foldl readLine st).1 ∨ t ∈ names := by
  induction lines generalizing st with
  | nil => exact hnames
  | cons line lines ih =>
      refine ih _ fun t => ?_
      rw [readLine]
      cases matchResult line with
      | none => exact hnames t
      | some m => simp only [AList.mem_insert, hnames, or_assoc]

theorem foldl_readLine_fst (lines : List Text) (run : Run) (names names' : Testnames) :
    (lines.foldl readLine (run, names)).1 = (lines.foldl readLine (run, names')).1 := by
  induction lines generalizing run names names' with
  | nil => rfl
  | cons line lines ih =>
      rw [List.foldl_cons, List.foldl_cons, readLine, readLine]
      cases matchResult line with
      | none => exact ih run names names'
      | some m => exact ih _ _ _

theorem getResults_some (files : List Text) (names : Testnames) :
    ∃ testnames, getResults (files.map some) names = some (files.map results, testnames) ∧
      ∀ t, t ∈ testnames ↔ (∃ f ∈ files, t ∈ results f) ∨ t ∈ names := by
  induction files generalizing names with
  | nil => exact ⟨names, rfl, by simp⟩
  | cons f files ih =>
      have hread := foldl_readLine (linesOf '\n' f) (∅, names) names fun t => by simp
      have hrun : ((linesOf '\n' f).foldl readLine (∅, names)).1 = results f :=
        foldl_readLine_fst _ _ _ _
      obtain ⟨testnames, hget, hmem⟩ := ih ((linesOf '\n' f).foldl readLine (∅, names)).2
      refine ⟨testnames, ?_, fun t => ?_⟩
      · rw [List.map_cons, getResults, hget, Option.map_some, hrun]
        rfl
      · rw [hmem, hread, hrun]
        simp only [List.mem_cons, exists_eq_or_imp]
        rw [or_left_comm, or_assoc]

theorem ltpDiff_eq_zero_iff (h : 2 ≤ files.length) :
    (ltpDiff (files.map some) = 0 ↔ ∀ t, Agree (files.map results) t) ∧
      ltpDiff (files.map some) ≤ 1 := by
  obtain ⟨testnames, hget, hmem⟩ := getResults_some files ∅
  obtain ⟨hrc, hle⟩ := compareResults_rc testnames (files.map results)
  rw [ltpDiff, List.length_map, if_neg (not_lt.mpr h), hget]
  refine ⟨hrc.trans ?_, hle⟩
  constructor
  · intro hnames t
    by_cases ht : t ∈ testnames
    · exact hnames t ht
    · -- no run reports the test
      have hnone : ∀ r ∈ files.map results, shown r t = "null".toList := by
        rw [List.forall_mem_map]
        intro f hf
        have hnot : t ∉ results f := fun hin => ht ((hmem t).mpr (.inl ⟨f, hf, hin⟩))
        rw [shown, AList.lookup_eq_none.mpr hnot]
        rfl
      exact fun r hr r' hr' => (hnone r hr).trans (hnone r' hr').symm
  · intro hall t _
    exact hall t

/-- The verdict does not depend on the order of the runs. -/
theorem ltpDiff_perm {files' : List Text} (h : 2 ≤ files.length) (hperm : files'.Perm files) :
    ltpDiff (files'.map some) = ltpDiff (files.map some) := by
  obtain ⟨hiff, hle⟩ := ltpDiff_eq_zero_iff h
  have h' : 2 ≤ files'.length := by rwa [hperm.length_eq]
  obtain ⟨hiff', hle'⟩ := ltpDiff_eq_zero_iff h'
  have hagree (t : Text) : Agree (files'.map results) t ↔ Agree (files.map results) t := by
    simp only [Agree, (hperm.map results).mem_iff]
  simp only [hagree] at hiff'
  have hzero := hiff'.trans hiff.symm
  omega

/-! ## The verdict -/

/-- A run reports a status of the test that another run does not report. -/
def Differ (files : List Text) (t : Text) : Prop :=
  ∃ f ∈ files, ∃ f' ∈ files, ∃ s, s ≠ "null".toList ∧ status? f t = some s ∧ status? f' t ≠ some s

/-- A run reports the status `null`, and another run does not have the test. -/
def Confused (files : List Text) (t : Text) : Prop :=
  ∃ f ∈ files, ∃ f' ∈ files, status? f t = some "null".toList ∧ status? f' t = none

theorem agree_iff (t : Text) :
    Agree (files.map results) t ↔ ∀ f ∈ files, ∀ f' ∈ files,
      (status? f t).getD "null".toList = (status? f' t).getD "null".toList := by
  simp only [Agree, List.forall_mem_map]
  rfl

theorem not_agree_of_differ (h : Differ files t) : ¬Agree (files.map results) t := by
  obtain ⟨f, hf, f', hf', s, hs, hfs, hfs'⟩ := h
  intro hagree
  have heq := (agree_iff t).mp hagree f hf f' hf'
  rw [hfs, Option.getD_some] at heq
  cases hstatus : status? f' t with
  | none =>
      rw [hstatus] at heq
      exact hs heq
  | some s' =>
      rw [hstatus] at heq
      exact hfs' (hstatus.trans (congrArg some heq.symm))

theorem agree_of_not_differ (h : ¬Differ files t) : Agree (files.map results) t := by
  rw [agree_iff]
  intro f hf f' hf'
  by_contra hne
  have hnull : ∀ f ∈ files, ∀ f' ∈ files,
      (status? f t).getD "null".toList ≠ (status? f' t).getD "null".toList →
        (status? f t).getD "null".toList = "null".toList := by
    intro f hf f' hf' hne
    cases hstatus : status? f t with
    | none => rfl
    | some s =>
        rw [hstatus, Option.getD_some] at hne
        by_contra hs
        refine h ⟨f, hf, f', hf', s, hs, hstatus, fun hsame => hne ?_⟩
        rw [hsame, Option.getD_some]
  exact hne ((hnull f hf f' hf' hne).trans (hnull f' hf' f hf (Ne.symm hne)).symm)

theorem status?_eq_of_agree (hagree : Agree (files.map results) t) (hconf : ¬Confused files t)
    {f f' : Text} (hf : f ∈ files) (hf' : f' ∈ files) : status? f t = status? f' t := by
  have heq := (agree_iff t).mp hagree f hf f' hf'
  cases hs : status? f t with
  | none =>
      cases hs' : status? f' t with
      | none => rfl
      | some s' =>
          rw [hs, hs', Option.getD_none, Option.getD_some] at heq
          exact absurd ⟨f', hf', f, hf, hs'.trans (congrArg some heq.symm), hs⟩ hconf
  | some s =>
      cases hs' : status? f' t with
      | none =>
          rw [hs, hs', Option.getD_none, Option.getD_some] at heq
          exact absurd ⟨f, hf, f', hf', hs.trans (congrArg some heq), hs'⟩ hconf
      | some s' =>
          rw [hs, hs'] at heq
          exact congrArg some heq

/-- The verdict is right exactly if some test differs otherwise, or no test with the status `null`
is missing in another run. -/
theorem ltpDiff_decides_iff (files : List Text) (h : 2 ≤ files.length) :
    Decides files ↔ (∃ t, Differ files t) ∨ ∀ t, ¬Confused files t := by
  obtain ⟨hiff, -⟩ := ltpDiff_eq_zero_iff h
  constructor
  · intro hdecides
    by_cases hdiffer : ∃ t, Differ files t
    · exact .inl hdiffer
    · right
      rintro t ⟨f, hf, f', hf', hnull, hnone⟩
      have hzero := hiff.mpr fun t => agree_of_not_differ fun ht => hdiffer ⟨t, ht⟩
      have hsame := hdecides.identical.mp hzero f hf f' hf' t
      rw [hnull, hnone] at hsame
      cases hsame
  · intro hcond
    refine ⟨hiff.trans ?_, fun files' hperm => ltpDiff_perm h hperm⟩
    constructor
    · intro hall f hf f' hf' t
      rcases hcond with ⟨u, hu⟩ | hconf
      · exact absurd (hall u) (not_agree_of_differ hu)
      · exact status?_eq_of_agree (hall t) (hconf t) hf hf'
    · intro hsame t
      rw [agree_iff]
      intro f hf f' hf'
      rw [hsame f hf f' hf' t]

def passed : Text := "abort01 1 PASS : Test passed\nchdir01 1 null : no result\n".toList

def failed : Text := "abort01 1 FAIL : wrong status\nchdir01 1 null : no result\n".toList

theorem ltpDiff_decides_passed_failed : Decides [passed, failed] := by
  refine (ltpDiff_decides_iff [passed, failed] (by decide)).mpr (.inl ⟨"abort01 1".toList, ?_⟩)
  refine ⟨passed, List.mem_cons_self, failed, by simp, "PASS".toList, ?_⟩
  decide +kernel

/-- A run with a test of status `null`, and a run without any test. -/
theorem ltpDiff_confuses_null : ¬Decides ["chdir01 1 null : no result\n".toList, []] := by
  intro h
  have hidentical := h.identical.mp (by decide +kernel)
  have hsame := hidentical _ List.mem_cons_self [] (by simp) "chdir01 1".toList
  exact absurd hsame (by decide +kernel)

end AutotestClient.LtpDiff
