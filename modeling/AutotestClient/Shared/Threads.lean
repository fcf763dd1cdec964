import Mathlib.Algebra.BigOperators.Group.Finset.Piecewise
import Mathlib.Algebra.Order.BigOperators.Group.Finset
import Mathlib.Data.Fintype.Card

/-! # Work pending in the local states of many threads -/

namespace AutotestClient.Shared

variable {ι κ A : Type*} [Fintype ι] [DecidableEq ι] [AddCommMonoid A]

/-- What all threads together still have to contribute, `f` giving the part of each
local state. -/
def total (f : κ → A) (locals : ι → κ) : A := ∑ i, f (locals i)

/-- One thread's move exchanges its own part of the total. -/
theorem total_update (f : κ → A) (locals : ι → κ) (i : ι) (k : κ) :
    total f (Function.update locals i k) + f (locals i) = total f locals + f k := by
  have hcomp : (fun j => f (Function.update locals i k j)) =
      Function.update (fun j => f (locals j)) i (f k) := by
    funext j
    by_cases hj : j = i
    · subst j
      simp
    · simp [hj]
  unfold total
  rw [hcomp, Finset.sum_update_of_mem (Finset.mem_univ i), Finset.sdiff_singleton_eq_erase,
    add_assoc, Finset.sum_erase_add _ _ (Finset.mem_univ i), add_comm]

/-- A move between two local states with the same part leaves the total alone. -/
theorem total_update_of_eq {f : κ → A} {locals : ι → κ} {i : ι} {k : κ}
    (hk : f k = f (locals i)) : total f (Function.update locals i k) = total f locals := by
  unfold total
  refine Finset.sum_congr rfl fun j _ => ?_
  by_cases hj : j = i
  · subst j
    simpa using hk
  · simp [hj]

omit [DecidableEq ι] in
theorem total_eq_zero {f : κ → A} {locals : ι → κ} (h : ∀ i, f (locals i) = 0) :
    total f locals = 0 :=
  Finset.sum_eq_zero fun i _ => h i

/-! ## Threads with a bounded part -/

section Bounded

variable {f : κ → ℕ} {locals : ι → κ} {b : ℕ}

omit [DecidableEq ι] in
theorem total_le_card_mul (h : ∀ i, f (locals i) ≤ b) :
    total f locals ≤ Fintype.card ι * b := by
  unfold total
  exact Finset.sum_le_card_nsmul _ _ _ fun i _ => h i

omit [DecidableEq ι] in
theorem total_eq_card_mul (h : ∀ i, f (locals i) = b) :
    total f locals = Fintype.card ι * b := by
  unfold total
  exact Finset.sum_eq_card_nsmul fun i _ => h i

omit [DecidableEq ι] in
/-- One thread below the bound keeps the total below it. -/
theorem total_lt_card_mul (h : ∀ i, f (locals i) ≤ b) {i : ι} (hi : f (locals i) < b) :
    total f locals < Fintype.card ι * b := by
  have hlt : ∑ j, f (locals j) < ∑ _j : ι, b :=
    Finset.sum_lt_sum (fun j _ => h j) ⟨i, Finset.mem_univ i, hi⟩
  exact hlt.trans_eq (Finset.sum_const_nat fun _ _ => rfl)

omit [DecidableEq ι] in
/-- A total below the bound shows a thread that is. -/
theorem exists_lt_of_total_lt (h : total f locals < Fintype.card ι * b) :
    ∃ i, f (locals i) < b := by
  by_contra hnone
  simp only [not_exists, not_lt] at hnone
  have hle : Fintype.card ι * b ≤ total f locals :=
    Finset.card_nsmul_le_sum _ _ _ fun i _ => hnone i
  exact absurd h (Nat.not_lt_of_le hle)

end Bounded

/-! ## Counting threads -/

/-- How many threads are in a local state with the property. -/
def count (p : κ → Bool) (locals : ι → κ) : ℕ := total (fun k => if p k then 1 else 0) locals

theorem count_update (p : κ → Bool) (locals : ι → κ) (i : ι) (k : κ) :
    count p (Function.update locals i k) + (if p (locals i) then 1 else 0) =
      count p locals + if p k then 1 else 0 :=
  total_update (fun k => if p k then 1 else 0) locals i k

theorem count_update_of_eq {p : κ → Bool} {locals : ι → κ} {i : ι} {k : κ}
    (hk : p k = p (locals i)) : count p (Function.update locals i k) = count p locals :=
  total_update_of_eq (f := fun k => if p k then 1 else 0) (by simp only [hk])

omit [DecidableEq ι] in
theorem count_eq_card_filter (p : κ → Bool) (locals : ι → κ) :
    count p locals = (Finset.univ.filter fun i => p (locals i) = true).card :=
  (Finset.card_filter _ _).symm

omit [DecidableEq ι] in
theorem count_le_card (p : κ → Bool) (locals : ι → κ) : count p locals ≤ Fintype.card ι := by
  rw [count_eq_card_filter]
  exact Finset.card_filter_le _ _

omit [DecidableEq ι] in
theorem count_eq_card_iff {p : κ → Bool} {locals : ι → κ} :
    count p locals = Fintype.card ι ↔ ∀ i, p (locals i) = true := by
  rw [count_eq_card_filter, Fintype.card, Finset.card_filter_eq_iff]
  simp only [Finset.mem_univ, forall_const]

end AutotestClient.Shared
