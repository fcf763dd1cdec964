import Mathlib.Data.Finset.Filter
import Mathlib.Order.Defs.LinearOrder

/-! # Runs of a set of naturals -/

namespace AutotestClient.Shared

/-- The maximal runs of a set, first and last element each, ascending. -/
structure IsRuns (runs : List (ℕ × ℕ)) (S : Finset ℕ) : Prop where
  ordered : ∀ r ∈ runs, r.1 ≤ r.2
  apart : runs.Pairwise fun r r' => r.2 + 1 < r'.1
  covers : ∀ x, x ∈ S ↔ ∃ r ∈ runs, r.1 ≤ x ∧ x ≤ r.2

/-- A scan from below: the runs that are over, and the one that may go on. -/
structure RunScan where
  done : List (ℕ × ℕ)
  pending : Option (ℕ × ℕ)

namespace RunScan

def runs (s : RunScan) : List (ℕ × ℕ) := s.done ++ s.pending.toList

def visit (S : Finset ℕ) (s : RunScan) (n : ℕ) : RunScan :=
  if n ∈ S then { s with pending := some ((s.pending.map Prod.fst).getD n, n) }
  else ⟨s.runs, none⟩

/-- The scan of the elements below a bound. -/
def below (S : Finset ℕ) (n : ℕ) : RunScan := (List.range n).foldl (visit S) ⟨[], none⟩

variable {S : Finset ℕ} {s : RunScan} {n : ℕ}

/-- `s` is right about the elements below `n`, and a pending run reaches up to `n`. -/
structure UpTo (S : Finset ℕ) (n : ℕ) (s : RunScan) : Prop where
  isRuns : IsRuns s.runs (S.filter (· < n))
  ended : ∀ r ∈ s.done, r.2 + 1 < n
  pending : ∀ r ∈ s.pending, r.2 + 1 = n

theorem UpTo.filter_succ_of_notMem (hn : n ∉ S) : S.filter (· < n + 1) = S.filter (· < n) := by
  ext x
  simp only [Finset.mem_filter, and_congr_right_iff]
  intro hx
  have hne : x ≠ n := by
    rintro rfl
    exact hn hx
  omega

theorem UpTo.visit_of_notMem (h : UpTo S n s) (hn : n ∉ S) : UpTo S (n + 1) (visit S s n) := by
  have hruns : (visit S s n).runs = s.runs := by simp [visit, hn, runs]
  have hdone : (visit S s n).done = s.runs := by simp [visit, hn]
  refine ⟨?_, ?_, ?_⟩
  · rw [hruns, UpTo.filter_succ_of_notMem hn]
    exact h.isRuns
  · intro r hr
    rw [hdone, runs, List.mem_append, Option.mem_toList] at hr
    rcases hr with hr | hr
    · have := h.ended r hr
      omega
    · have := h.pending r hr
      omega
  · simp [visit, hn]

/-- A pending run from `a` to `n` that has what is missing of the elements up to `n`. -/
theorem UpTo.extend (h : UpTo S n s) {a : ℕ} (ha : a ≤ n)
    (hapart : ∀ r ∈ s.done, r.2 + 1 < a)
    (hcover : ∀ x, (x ∈ S ∧ x < n + 1) ↔
      (∃ r ∈ s.done, r.1 ≤ x ∧ x ≤ r.2) ∨ a ≤ x ∧ x ≤ n) :
    UpTo S (n + 1) { s with pending := some (a, n) } := by
  have hpairs := h.isRuns.apart
  rw [runs, List.pairwise_append] at hpairs
  refine ⟨⟨?_, ?_, ?_⟩, ?_, ?_⟩
  · intro r hr
    simp only [runs, Option.toList_some, List.mem_append, List.mem_singleton] at hr
    rcases hr with hr | rfl
    · exact h.isRuns.ordered r (List.mem_append_left _ hr)
    · exact ha
  · simp only [runs, Option.toList_some, List.pairwise_append, List.mem_singleton, forall_eq]
    exact ⟨hpairs.1, List.pairwise_singleton _ _, hapart⟩
  · intro x
    simp only [runs, Option.toList_some, Finset.mem_filter, List.mem_append, List.mem_singleton,
      or_and_right, exists_or, exists_eq_left]
    exact hcover x
  · intro r hr
    have := h.ended r hr
    omega
  · rintro r ⟨⟩
    rfl

theorem UpTo.visit_of_mem (h : UpTo S n s) (hn : n ∈ S) : UpTo S (n + 1) (visit S s n) := by
  have hcovers := h.isRuns.covers
  have hpairs := h.isRuns.apart
  rw [visit, if_pos hn]
  cases hp : s.pending with
  | none =>
      -- A run begins at `n`.
      simp only [runs, hp, Option.toList_none, List.append_nil, Finset.mem_filter] at hcovers
      apply h.extend le_rfl h.ended
      intro x
      rw [← hcovers]
      by_cases hx : x = n
      · simp [hx, hn]
      · constructor
        · rintro ⟨hmem, hlt⟩
          exact .inl ⟨hmem, by omega⟩
        · rintro (⟨hmem, hlt⟩ | hends)
          · exact ⟨hmem, by omega⟩
          · omega
  | some r =>
      -- The run before `n` goes on.
      have hend := h.pending r hp
      have hr := h.isRuns.ordered r (by simp [runs, hp])
      simp only [runs, hp, Option.toList_some, List.pairwise_append] at hpairs
      simp only [runs, hp, Option.toList_some, Finset.mem_filter, List.mem_append,
        List.mem_singleton, or_and_right, exists_or, exists_eq_left] at hcovers
      apply h.extend (show r.1 ≤ n by omega) fun r' hr' => hpairs.2.2 r' hr' r (by simp)
      intro x
      by_cases hx : x = n
      · subst hx
        exact iff_of_true ⟨hn, by omega⟩ (.inr ⟨by omega, le_rfl⟩)
      · constructor
        · rintro ⟨hmem, hlt⟩
          exact ((hcovers x).mp ⟨hmem, by omega⟩).imp_right fun hends => ⟨hends.1, by omega⟩
        · intro hruns
          have hmem := (hcovers x).mpr (hruns.imp_right fun hends => ⟨hends.1, by omega⟩)
          exact ⟨hmem.1, by omega⟩

theorem upTo_below (S : Finset ℕ) (n : ℕ) : UpTo S n (below S n) := by
  induction n with
  | zero =>
      refine ⟨⟨?_, ?_, ?_⟩, ?_, ?_⟩
      all_goals simp [below, runs]
  | succ n ih =>
      have hstep : below S (n + 1) = visit S (below S n) n := by simp [below, List.range_succ]
      rw [hstep]
      by_cases hn : n ∈ S
      · exact ih.visit_of_mem hn
      · exact ih.visit_of_notMem hn

/-- The scan finds the runs of a set. -/
theorem isRuns_below {S : Finset ℕ} {n : ℕ} (hS : ∀ x ∈ S, x < n) : IsRuns (below S n).runs S := by
  have h := (upTo_below S n).isRuns
  rwa [Finset.filter_true_of_mem hS] at h

end RunScan

end AutotestClient.Shared
