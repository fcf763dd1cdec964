import Mathlib.Algebra.BigOperators.Group.List.Basic
import Mathlib.Algebra.Order.Ring.Int
import Mathlib.Data.Int.Lemmas
import Mathlib.Data.List.Forall2
import Mathlib.Logic.Function.Basic

/-! # Serving demands on shared pools

Each demand asks a pool for a number of units of one size. Demands are served in turn,
each with as many units as stay strictly below what its pool has left; one that gets no
unit this way is given all that is left as a single unit. -/

namespace AutotestClient.Shared

structure Demand (ι κ : Type*) where
  owner : ι
  pool : κ
  count : ℤ
  size : ℤ
  deriving DecidableEq

namespace Demand

variable {ι κ : Type*}

def cost (d : Demand ι κ) : ℤ := d.count * d.size

/-- At least one unit, of at least size one. -/
def Positive (d : Demand ι κ) : Prop := 1 ≤ d.count ∧ 1 ≤ d.size

/-- The units of a demand that stay strictly below `left`. -/
def fitting (left : ℤ) (d : Demand ι κ) : ℤ := min d.count ((left - 1) / d.size)

def grant (left : ℤ) (d : Demand ι κ) : Demand ι κ :=
  if d.fitting left = 0 then { d with count := 1, size := left }
  else { d with count := d.fitting left }

/-- The same demand for no more units of no greater size. -/
structure Reduces (d g : Demand ι κ) : Prop where
  owner_eq : g.owner = d.owner
  pool_eq : g.pool = d.pool
  count_le : g.count ≤ d.count
  size_nonneg : 0 ≤ g.size
  size_le : g.size ≤ d.size

@[simp] theorem grant_owner (left : ℤ) (d : Demand ι κ) : (d.grant left).owner = d.owner := by
  unfold grant
  split <;> rfl

@[simp] theorem grant_pool (left : ℤ) (d : Demand ι κ) : (d.grant left).pool = d.pool := by
  unfold grant
  split <;> rfl

theorem grant_of_fitting_eq_zero {left : ℤ} {d : Demand ι κ} (h : d.fitting left = 0) :
    d.grant left = { d with count := 1, size := left } := if_pos h

theorem grant_of_fitting_ne_zero {left : ℤ} {d : Demand ι κ} (h : d.fitting left ≠ 0) :
    d.grant left = { d with count := d.fitting left } := if_neg h

/-- The fitting units cost less than what is left. -/
theorem fitting_mul_lt {d : Demand ι κ} (hd : d.Positive) (left : ℤ) :
    d.fitting left * d.size < left := by
  have hsize : 0 < d.size := by have := hd.2; omega
  have hle : d.fitting left ≤ (left - 1) / d.size := min_le_right _ _
  have := (Int.le_ediv_iff_mul_le hsize).mp hle
  omega

/-- Some unit fits exactly if one of them is smaller than what is left. -/
theorem one_le_fitting_iff {d : Demand ι κ} (hd : d.Positive) (left : ℤ) :
    1 ≤ d.fitting left ↔ d.size < left := by
  have hsize : 0 < d.size := by have := hd.2; omega
  have hone : 1 ≤ (left - 1) / d.size ↔ 1 * d.size ≤ left - 1 := Int.le_ediv_iff_mul_le hsize
  have hcount := hd.1
  unfold fitting
  rw [le_min_iff, hone]
  omega

theorem fitting_nonneg_iff {d : Demand ι κ} (hd : d.Positive) (left : ℤ) :
    0 ≤ d.fitting left ↔ 1 ≤ left := by
  have hsize : 0 < d.size := by have := hd.2; omega
  have hzero : 0 ≤ (left - 1) / d.size ↔ 0 * d.size ≤ left - 1 := Int.le_ediv_iff_mul_le hsize
  have hcount := hd.1
  unfold fitting
  rw [le_min_iff, hzero]
  omega

/-- A grant is a real one exactly if the pool is not empty. -/
theorem one_le_grant_count_iff {left : ℤ} {d : Demand ι κ} (hd : d.Positive) (hleft : 0 ≤ left) :
    1 ≤ (d.grant left).count ↔ 1 ≤ left := by
  have hnonneg := fitting_nonneg_iff hd left
  by_cases h : d.fitting left = 0
  · rw [grant_of_fitting_eq_zero h]
    simp only [le_refl, true_iff]
    omega
  · rw [grant_of_fitting_ne_zero h]
    simp only
    omega

theorem grant_cost_le {d : Demand ι κ} (hd : d.Positive) (left : ℤ) :
    (d.grant left).cost ≤ left := by
  by_cases h : d.fitting left = 0
  · simp [grant_of_fitting_eq_zero h, cost]
  · rw [grant_of_fitting_ne_zero h]
    exact (fitting_mul_lt hd left).le

/-- A demand for units smaller than what is left leaves something. -/
theorem grant_cost_of_size_lt {left : ℤ} {d : Demand ι κ} (hd : d.Positive) (h : d.size < left) :
    (d.grant left).cost = d.fitting left * d.size := by
  have hone := (one_le_fitting_iff hd left).mpr h
  have hne : d.fitting left ≠ 0 := by omega
  rw [grant_of_fitting_ne_zero hne, cost]

/-- A demand for units at least as large as what is left takes all of it. -/
theorem grant_cost_of_le_size {left : ℤ} {d : Demand ι κ} (hd : d.Positive) (hleft : 1 ≤ left)
    (h : left ≤ d.size) : (d.grant left).cost = left := by
  have hone := one_le_fitting_iff hd left
  have hnonneg := (fitting_nonneg_iff hd left).mpr hleft
  have hzero : d.fitting left = 0 := by omega
  simp [grant_of_fitting_eq_zero hzero, cost]

theorem reduces_grant {left : ℤ} {d : Demand ι κ} (hd : d.Positive) (hleft : 0 ≤ left) :
    d.Reduces (d.grant left) := by
  have hcount := hd.1
  have hsize := hd.2
  have hone := one_le_fitting_iff hd left
  have hle : d.fitting left ≤ d.count := min_le_left _ _
  by_cases h : d.fitting left = 0
  · rw [grant_of_fitting_eq_zero h]
    exact ⟨rfl, rfl, hcount, hleft, by simp only; omega⟩
  · rw [grant_of_fitting_ne_zero h]
    exact ⟨rfl, rfl, hle, by simp only; omega, le_refl _⟩

/-! Units may take no room. -/

def Nonneg (d : Demand ι κ) : Prop := 0 ≤ d.count ∧ 0 ≤ d.size

/-- The units a demand keeps: those that fit, and all of them if they take no room. -/
def kept (left : ℤ) (d : Demand ι κ) : ℤ := if d.size = 0 then d.count else d.fitting left

/-- A demand that keeps no unit is given all that is left, too. -/
def allot (left : ℤ) (d : Demand ι κ) : Demand ι κ :=
  if d.kept left = 0 then { d with count := 1, size := left } else { d with count := d.kept left }

@[simp] theorem allot_owner (left : ℤ) (d : Demand ι κ) : (d.allot left).owner = d.owner := by
  unfold allot
  split <;> rfl

theorem allot_size_nonneg {left : ℤ} {d : Demand ι κ} (hd : d.Nonneg) (hleft : 0 ≤ left) :
    0 ≤ (d.allot left).size := by
  unfold allot
  split
  · exact hleft
  · exact hd.2

/-- For positive demands it makes no difference. -/
theorem allot_eq_grant {d : Demand ι κ} (hd : d.Positive) (left : ℤ) :
    d.allot left = d.grant left := by
  have hsize : d.size ≠ 0 := by
    have := hd.2
    omega
  simp only [allot, grant, kept, if_neg hsize]

theorem allot_cost_le {left : ℤ} {d : Demand ι κ} (hd : d.Nonneg) (hleft : 0 ≤ left) :
    (d.allot left).cost ≤ left := by
  by_cases hkept : d.kept left = 0
  · simp [allot, hkept, cost]
  · rw [allot, if_neg hkept, cost]
    by_cases hsize : d.size = 0
    · simpa [hsize] using hleft
    · have hpos : 0 < d.size := lt_of_le_of_ne hd.2 (Ne.symm hsize)
      have hle : d.kept left ≤ (left - 1) / d.size := by
        rw [kept, if_neg hsize]
        exact min_le_right _ _
      have hmul := (Int.le_ediv_iff_mul_le hpos).mp hle
      simp only
      omega

end Demand

open Demand

section Serve

variable {ι κ : Type*} [DecidableEq κ]

/-- What the pools have left after a demand. -/
def draw (left : κ → ℤ) (d : Demand ι κ) : κ → ℤ :=
  Function.update left d.pool (left d.pool - (d.grant (left d.pool)).cost)

/-- Serves the demands in turn; `left` is what each pool has left. -/
def serve : (κ → ℤ) → List (Demand ι κ) → (κ → ℤ) × List (Demand ι κ)
  | left, [] => (left, [])
  | left, d :: ds =>
      let (last, gs) := serve (draw left d) ds
      (last, d.grant (left d.pool) :: gs)

/-- The demands on one pool. -/
def on (p : κ) (ds : List (Demand ι κ)) : List (Demand ι κ) := ds.filter fun d => d.pool = p

/-- What the demands on a pool cost. -/
def spent (p : κ) (ds : List (Demand ι κ)) : ℤ := ((on p ds).map Demand.cost).sum

/-- Each demand but the last asks for units smaller than what those before it leave. -/
def Fits : ℤ → List (Demand ι κ) → Prop
  | _, [] => True
  | left, d :: ds => (ds = [] ∨ d.size < left) ∧ Fits (left - d.fitting left * d.size) ds

instance Fits.decidable : ∀ (left : ℤ) (ds : List (Demand ι κ)), Decidable (Fits left ds)
  | _, [] => .isTrue trivial
  | left, d :: ds =>
      have := Fits.decidable (left - d.fitting left * d.size) ds
      have : Decidable (ds = []) := decidable_of_iff (ds.isEmpty = true) List.isEmpty_iff
      inferInstanceAs (Decidable ((ds = [] ∨ d.size < left) ∧ _))

theorem draw_self (left : κ → ℤ) (d : Demand ι κ) :
    draw left d d.pool = left d.pool - (d.grant (left d.pool)).cost :=
  Function.update_self ..

theorem draw_of_ne (left : κ → ℤ) {d : Demand ι κ} {p : κ} (h : d.pool ≠ p) :
    draw left d p = left p :=
  Function.update_of_ne (Ne.symm h) ..

theorem on_cons_of_eq {p : κ} {d : Demand ι κ} (h : d.pool = p) (ds : List (Demand ι κ)) :
    on p (d :: ds) = d :: on p ds := by
  simp [on, h]

theorem on_cons_of_ne {p : κ} {d : Demand ι κ} (h : d.pool ≠ p) (ds : List (Demand ι κ)) :
    on p (d :: ds) = on p ds := by
  simp [on, h]

theorem on_eq_nil_iff {p : κ} {ds : List (Demand ι κ)} :
    on p ds = [] ↔ ∀ d ∈ ds, d.pool ≠ p := by
  simp [on]

/-! ## What a service keeps -/

theorem draw_nonneg {d : Demand ι κ} (hd : d.Positive) {left : κ → ℤ} (hleft : ∀ p, 0 ≤ left p)
    (p : κ) : 0 ≤ draw left d p := by
  by_cases h : d.pool = p
  · subst h
    have := grant_cost_le hd (left d.pool)
    rw [draw_self]
    omega
  · rw [draw_of_ne left h]
    exact hleft p

/-- No pool is overdrawn. -/
theorem serve_nonneg {ds : List (Demand ι κ)} (hds : ∀ d ∈ ds, d.Positive) {left : κ → ℤ}
    (hleft : ∀ p, 0 ≤ left p) (p : κ) : 0 ≤ (serve left ds).1 p := by
  induction ds generalizing left with
  | nil => exact hleft p
  | cons d ds ih =>
      rw [List.forall_mem_cons] at hds
      exact ih hds.2 (draw_nonneg hds.1 hleft)

/-- What a pool has lost is what its demands cost. -/
theorem serve_left (left : κ → ℤ) (ds : List (Demand ι κ)) (p : κ) :
    (serve left ds).1 p = left p - spent p (serve left ds).2 := by
  induction ds generalizing left with
  | nil => simp [serve, spent, on]
  | cons d ds ih =>
      simp only [serve]
      rw [ih]
      by_cases h : d.pool = p
      · subst h
        rw [draw_self, spent, spent, on_cons_of_eq (grant_pool ..)]
        simp only [List.map_cons, List.sum_cons]
        omega
      · rw [draw_of_ne left h, spent, spent, on_cons_of_ne (by simpa using h)]

theorem spent_serve_le {ds : List (Demand ι κ)} (hds : ∀ d ∈ ds, d.Positive) {left : κ → ℤ}
    (hleft : ∀ p, 0 ≤ left p) (p : κ) : spent p (serve left ds).2 ≤ left p := by
  have hnonneg := serve_nonneg hds hleft p
  have hlost := serve_left left ds p
  omega

theorem serve_reduces {ds : List (Demand ι κ)} (hds : ∀ d ∈ ds, d.Positive) {left : κ → ℤ}
    (hleft : ∀ p, 0 ≤ left p) : List.Forall₂ Reduces ds (serve left ds).2 := by
  induction ds generalizing left with
  | nil => exact .nil
  | cons d ds ih =>
      rw [List.forall_mem_cons] at hds
      exact .cons (reduces_grant hds.1 (hleft _)) (ih hds.2 (draw_nonneg hds.1 hleft))

/-! ## When every demand gets something -/

/-- A demand on an empty pool gets nothing. -/
theorem exists_count_lt_one {ds : List (Demand ι κ)} (hds : ∀ d ∈ ds, d.Positive) {left : κ → ℤ}
    {p : κ} (hp : left p = 0) (hon : on p ds ≠ []) :
    ∃ g ∈ (serve left ds).2, ¬1 ≤ g.count := by
  induction ds generalizing left with
  | nil => exact absurd rfl hon
  | cons d ds ih =>
      rw [List.forall_mem_cons] at hds
      by_cases h : d.pool = p
      · refine ⟨d.grant (left d.pool), List.mem_cons_self, ?_⟩
        rw [h, one_le_grant_count_iff hds.1 (by omega)]
        omega
      · rw [on_cons_of_ne h] at hon
        rw [← draw_of_ne left h] at hp
        obtain ⟨g, hg, hcount⟩ := ih hds.2 hp hon
        exact ⟨g, List.mem_cons_of_mem _ hg, hcount⟩

variable {d : Demand ι κ} {ds : List (Demand ι κ)} {left : κ → ℤ}

/-- A demand that asks for small enough units, or that is the last one on its pool,
empties no pool that is still needed. -/
theorem one_le_draw (hd : d.Positive) (hleft : ∀ e ∈ ds, 1 ≤ left e.pool)
    (hok : on d.pool ds = [] ∨ d.size < left d.pool) : ∀ e ∈ ds, 1 ≤ draw left d e.pool := by
  intro e he
  by_cases hp : d.pool = e.pool
  · rcases hok with hlast | hfit
    · exact absurd hp.symm (on_eq_nil_iff.mp hlast e he)
    · have hlt := fitting_mul_lt hd (left d.pool)
      rw [← hp, draw_self, grant_cost_of_size_lt hd hfit]
      omega
  · rw [draw_of_ne left hp]
    exact hleft e he

theorem fits_draw_iff (hd : d.Positive) (hok : on d.pool ds = [] ∨ d.size < left d.pool) (p : κ) :
    Fits (draw left d p) (on p ds) ↔ Fits (left p) (on p (d :: ds)) := by
  by_cases hp : d.pool = p
  · subst hp
    rw [on_cons_of_eq rfl, Fits, draw_self]
    rcases hok with hlast | hfit
    · simp [hlast, Fits]
    · simp [hfit, grant_cost_of_size_lt hd hfit]
  · rw [on_cons_of_ne hp, draw_of_ne left hp]

/-- Every demand gets a unit exactly if on every pool only the last one can ask for
units as large as what is left. -/
theorem serve_count_pos_iff (hds : ∀ d ∈ ds, d.Positive) (hleft : ∀ d ∈ ds, 1 ≤ left d.pool) :
    (∀ g ∈ (serve left ds).2, 1 ≤ g.count) ↔ ∀ p, Fits (left p) (on p ds) := by
  induction ds generalizing left with
  | nil => simp [serve, on, Fits]
  | cons d ds ih =>
      rw [List.forall_mem_cons] at hds hleft
      obtain ⟨hd, hds⟩ := hds
      obtain ⟨hpool, hleft⟩ := hleft
      have hhead : 1 ≤ (d.grant (left d.pool)).count :=
        (one_le_grant_count_iff hd (by omega)).mpr hpool
      simp only [serve, List.forall_mem_cons, hhead, true_and]
      by_cases hok : on d.pool ds = [] ∨ d.size < left d.pool
      · rw [ih hds (one_le_draw hd hleft hok)]
        exact forall_congr' (fits_draw_iff hd hok)
      · -- the pool is emptied before the last demand on it
        rw [not_or, not_lt] at hok
        have hempty : draw left d d.pool = 0 := by
          rw [draw_self, grant_cost_of_le_size hd hpool hok.2, sub_self]
        obtain ⟨g, hg, hcount⟩ := exists_count_lt_one hds hempty hok.1
        refine iff_of_false (fun hall => hcount (hall g hg)) fun hall => ?_
        have hat := hall d.pool
        rw [on_cons_of_eq rfl, Fits] at hat
        exact hat.1.elim hok.1 (not_lt.mpr hok.2)

/-! ## Units that take no room -/

/-- What the pools have left after an allotment. -/
def drain (left : κ → ℤ) (d : Demand ι κ) : κ → ℤ :=
  Function.update left d.pool (left d.pool - (d.allot (left d.pool)).cost)

/-- No demand for units that take no room comes to an empty pool. -/
def Lasts : ℤ → List (Demand ι κ) → Prop
  | _, [] => True
  | left, d :: ds => (d.size = 0 → 0 < left) ∧ Lasts (left - (d.allot left).cost) ds

/-- The same for all pools at once. -/
def LastsAll : (κ → ℤ) → List (Demand ι κ) → Prop
  | _, [] => True
  | left, d :: ds => (d.size = 0 → 0 < left d.pool) ∧ LastsAll (drain left d) ds

theorem drain_self (left : κ → ℤ) (d : Demand ι κ) :
    drain left d d.pool = left d.pool - (d.allot (left d.pool)).cost :=
  Function.update_self ..

theorem drain_of_ne (left : κ → ℤ) {d : Demand ι κ} {p : κ} (h : d.pool ≠ p) :
    drain left d p = left p :=
  Function.update_of_ne (Ne.symm h) ..

theorem drain_eq_draw {d : Demand ι κ} (hd : d.Positive) (left : κ → ℤ) :
    drain left d = draw left d := by
  rw [drain, draw, allot_eq_grant hd]

theorem drain_nonneg {d : Demand ι κ} (hd : d.Nonneg) {left : κ → ℤ} (hleft : ∀ p, 0 ≤ left p)
    (p : κ) : 0 ≤ drain left d p := by
  by_cases h : d.pool = p
  · subst h
    have hcost := allot_cost_le hd (hleft d.pool)
    rw [drain_self]
    omega
  · rw [drain_of_ne left h]
    exact hleft p

theorem lastsAll_iff (left : κ → ℤ) (ds : List (Demand ι κ)) :
    LastsAll left ds ↔ ∀ p, Lasts (left p) (on p ds) := by
  induction ds generalizing left with
  | nil => simp [LastsAll, on, Lasts]
  | cons d ds ih =>
      rw [LastsAll, ih]
      constructor
      · rintro ⟨hd, hds⟩ p
        by_cases h : d.pool = p
        · subst h
          rw [on_cons_of_eq rfl, Lasts, ← drain_self]
          exact ⟨hd, hds d.pool⟩
        · rw [on_cons_of_ne h, ← drain_of_ne left h]
          exact hds p
      · intro h
        have hpool := h d.pool
        rw [on_cons_of_eq rfl, Lasts, ← drain_self] at hpool
        refine ⟨hpool.1, fun p => ?_⟩
        by_cases hp : d.pool = p
        · exact hp ▸ hpool.2
        · rw [drain_of_ne left hp, ← on_cons_of_ne hp ds]
          exact h p

end Serve

end AutotestClient.Shared
