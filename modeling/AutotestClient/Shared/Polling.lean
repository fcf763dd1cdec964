import Mathlib.Order.Defs.LinearOrder
import Mathlib.Order.Nat

/-! # Polling

A condition is observed again and again, until it holds or the observations are used up. -/

namespace AutotestClient.Shared

/-- What is expected of a loop with at most `max` observations that made `seen` of them. -/
structure Polls (cond : ℕ → Bool) (max seen : ℕ) (success : Prop) : Prop where
  bounded : seen ≤ max
  stops : ∀ i < max, cond i → (∀ j < i, cond j = false) → seen = i + 1
  success_iff : success ↔ ∃ i < max, cond i

/-- At most `n` observations, the first of them with number `i`: the number of the next
observation, and whether the condition was seen to hold. -/
def observe (cond : ℕ → Bool) : ℕ → ℕ → ℕ × Bool
  | 0, i => (i, false)
  | n + 1, i => if cond i then (i + 1, true) else observe cond n (i + 1)

variable {cond : ℕ → Bool} {n i : ℕ}

theorem observe_succ_of_holds (h : cond i) : observe cond (n + 1) i = (i + 1, true) := by
  simp [observe, h]

theorem observe_succ_of_not (h : cond i = false) :
    observe cond (n + 1) i = observe cond n (i + 1) := by
  simp [observe, h]

theorem observe_le (cond : ℕ → Bool) (n i : ℕ) : (observe cond n i).1 ≤ i + n := by
  induction n generalizing i with
  | zero => exact le_rfl
  | succ n ih =>
      cases h : cond i with
      | true => rw [observe_succ_of_holds h]; omega
      | false =>
          rw [observe_succ_of_not h]
          have hrest := ih (i + 1)
          omega

/-- The first observation that holds ends the loop. -/
theorem observe_of_first {j : ℕ} (hij : i ≤ j) (hj : j < i + n) (h : cond j)
    (hbefore : ∀ k, i ≤ k → k < j → cond k = false) : observe cond n i = (j + 1, true) := by
  induction n generalizing i with
  | zero => omega
  | succ n ih =>
      rcases Nat.eq_or_lt_of_le hij with rfl | hlt
      · exact observe_succ_of_holds h
      · rw [observe_succ_of_not (hbefore i le_rfl hlt)]
        exact ih hlt (by omega) fun k hk => hbefore k (by omega)

theorem observe_of_never (h : ∀ j, i ≤ j → j < i + n → cond j = false) :
    observe cond n i = (i + n, false) := by
  induction n generalizing i with
  | zero => rfl
  | succ n ih =>
      rw [observe_succ_of_not (h i le_rfl (by omega)),
        ih fun j hj hlt => h j (by omega) (by omega), Nat.add_right_comm, Nat.add_assoc]

theorem exists_first (h : ∃ i < n, cond i) :
    ∃ i < n, cond i ∧ ∀ j < i, cond j = false := by
  induction n with
  | zero => simp at h
  | succ n ih =>
      by_cases hbefore : ∃ i < n, cond i
      · obtain ⟨i, hi, hfirst⟩ := ih hbefore
        exact ⟨i, by omega, hfirst⟩
      · obtain ⟨i, hi, hcond⟩ := h
        refine ⟨i, hi, hcond, fun j hj => ?_⟩
        by_contra hj'
        exact hbefore ⟨j, by omega, by simpa using hj'⟩

theorem polls_observe (cond : ℕ → Bool) (n : ℕ) :
    Polls cond n (observe cond n 0).1 ((observe cond n 0).2 = true) := by
  have hfirst {i : ℕ} (hi : i < n) (hcond : cond i) (hbefore : ∀ j < i, cond j = false) :
      observe cond n 0 = (i + 1, true) :=
    observe_of_first i.zero_le (by omega) hcond fun k _ => hbefore k
  constructor
  · exact (observe_le cond n 0).trans_eq (Nat.zero_add n)
  · intro i hi hcond hbefore
    rw [hfirst hi hcond hbefore]
  · by_cases h : ∃ i < n, cond i
    · obtain ⟨i, hi, hcond, hbefore⟩ := exists_first h
      simp only [hfirst hi hcond hbefore, true_iff]
      exact h
    · have hnever : observe cond n 0 = (0 + n, false) := by
        apply observe_of_never
        intro j _ hj
        by_contra hcond
        exact h ⟨j, by omega, by simpa using hcond⟩
      simp only [hnever, Bool.false_eq_true, false_iff]
      exact h

/-- With one observation less than permitted, the last one is missed. -/
theorem polls_observe_pred_iff (cond : ℕ → Bool) (n : ℕ) :
    Polls cond (n + 1) (observe cond n 0).1 ((observe cond n 0).2 = true) ↔
      (∃ i < n, cond i) ∨ cond n = false := by
  constructor
  · intro h
    cases hlast : cond n with
    | false => exact .inr rfl
    | true =>
        have hsuccess := h.success_iff.mpr ⟨n, n.lt_succ_self, hlast⟩
        exact .inl ((polls_observe cond n).success_iff.mp hsuccess)
  · intro h
    have hpolls := polls_observe cond n
    have hmore : (∃ i < n + 1, cond i) → ∃ i < n, cond i := by
      rintro ⟨i, hi, hcond⟩
      rcases h with h | h
      · exact h
      · have hne : i ≠ n := by
          rintro rfl
          simp [h] at hcond
        exact ⟨i, by omega, hcond⟩
    refine ⟨hpolls.bounded.trans n.le_succ, ?_, ?_⟩
    · intro i hi hcond hbefore
      obtain ⟨j, hj, hcond'⟩ := hmore ⟨i, hi, hcond⟩
      refine hpolls.stops i (lt_of_le_of_lt ?_ hj) hcond hbefore
      by_contra hlt
      simp [hbefore j (not_le.mp hlt)] at hcond'
    · rw [hpolls.success_iff]
      exact ⟨fun ⟨i, hi, hcond⟩ => ⟨i, by omega, hcond⟩, hmore⟩

end AutotestClient.Shared
