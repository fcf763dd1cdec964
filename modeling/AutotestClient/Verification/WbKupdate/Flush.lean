import AutotestClient.Model.WbKupdate
import Mathlib.Data.Nat.Find

/-! # Detecting the flush

The clock is looked at once more after the poll that finds the data flushed, and what the poll found
is thrown away if the deadline has passed in between. -/

namespace AutotestClient.WbKupdate

open Shared

/-- The times of a wait: the poll of a round comes before its reading of the clock, and the clock is
never set back and never stops. -/
structure Timeline where
  polled : ℕ → ℤ
  clock : ℕ → ℤ
  reads : ∀ i, polled i ≤ clock i
  next : ∀ i, clock i ≤ polled (i + 1)
  unbounded : ∀ b, ∃ i, b < clock i

variable {size startTime : ℤ} {sizes clock : ℕ → ℤ} {maxWaitTime : ℕ} {T : Timeline} {i j e : ℕ}

def deadline (startTime : ℤ) (maxWaitTime : ℕ) : ℤ := startTime + maxWaitTime * 60 * 1000000

/-- The first poll that finds another size. -/
def FirstChange (size : ℤ) (sizes : ℕ → ℤ) (i : ℕ) : Prop :=
  sizes i ≠ size ∧ ∀ j < i, sizes j = size

/-- A poll up to the deadline finds another size. -/
def Flushed (size : ℤ) (sizes polled : ℕ → ℤ) (startTime : ℤ) (maxWaitTime : ℕ) : Prop :=
  ∃ i, polled i ≤ deadline startTime maxWaitTime ∧ sizes i ≠ size

/-- The function returns if the data is seen to be flushed, and raises its error if not. -/
structure Detects (result : Except Failure ℤ) (flushed : Prop) (maxWaitTime : ℕ) : Prop where
  returns : flushed → ∃ t, result = .ok t
  raises : ¬flushed → result = .error (.testError (notFlushed maxWaitTime))

/-! ## Times -/

theorem needsMoreTime_iff {now : ℤ} :
    needsMoreTime startTime maxWaitTime none now = true ↔ now ≤ deadline startTime maxWaitTime := by
  rw [needsMoreTime, deadline, Option.getD_none, decide_eq_true_eq, sub_le_iff_le_add']

theorem Timeline.polled_mono (T : Timeline) (hij : i ≤ j) : T.polled i ≤ T.polled j :=
  monotone_nat_of_le_succ (fun i => (T.reads i).trans (T.next i)) hij

theorem Timeline.clock_le (T : Timeline) (hij : i < j) : T.clock i ≤ T.polled j :=
  (T.next i).trans (T.polled_mono hij)

/-! ## The loop -/

/-- The round in which the loop ends, by a change or by the clock. -/
structure Ends (size : ℤ) (sizes clock : ℕ → ℤ) (startTime : ℤ) (maxWaitTime i e : ℕ) : Prop where
  from_le : i ≤ e
  same : ∀ j, i ≤ j → j < e → sizes j = size
  early : ∀ j, i ≤ j → j < e → clock j ≤ deadline startTime maxWaitTime
  stop : sizes e ≠ size ∨ deadline startTime maxWaitTime < clock e

theorem Ends.loop (h : Ends size sizes clock startTime maxWaitTime i e) {fuel : ℕ}
    (hfuel : e + 2 ≤ fuel + i) :
    waitLoop sizes clock startTime maxWaitTime size fuel i size =
      if clock e ≤ deadline startTime maxWaitTime then .ok (clock (e + 1) - startTime)
      else .error (.testError (notFlushed maxWaitTime)) := by
  have hround (i fuel : ℕ) : waitLoop sizes clock startTime maxWaitTime size (fuel + 1) i size =
      if clock i ≤ deadline startTime maxWaitTime then
        waitLoop sizes clock startTime maxWaitTime size fuel (i + 1) (sizes i)
      else .error (.testError (notFlushed maxWaitTime)) := by
    rw [waitLoop, if_pos rfl]
    simp only [← needsMoreTime_iff]
    cases needsMoreTime startTime maxWaitTime none (clock i) with
    | true => rfl
    | false => rfl
  induction fuel generalizing i with
  | zero =>
      have := h.from_le
      omega
  | succ fuel ih =>
      rw [hround]
      rcases h.from_le.eq_or_lt with rfl | hlt
      · split_ifs with hclock
        · -- the loop condition finds the change
          have hchange := h.stop.resolve_right (not_lt.mpr hclock)
          obtain ⟨fuel, rfl⟩ : ∃ n, fuel = n + 1 := Nat.exists_eq_succ_of_ne_zero (by omega)
          rw [waitLoop, if_neg (Ne.symm hchange)]
        · rfl
      · rw [if_pos (h.early i le_rfl hlt), h.same i le_rfl hlt]
        refine ih ⟨hlt, fun j hj => h.same j (by omega), fun j hj => h.early j (by omega), h.stop⟩ ?_
        omega

theorem exists_ends (T : Timeline) (size : ℤ) (sizes : ℕ → ℤ) (startTime : ℤ) (maxWaitTime : ℕ) :
    ∃ e, Ends size sizes T.clock startTime maxWaitTime 0 e := by
  have hstop : ∃ e, sizes e ≠ size ∨ deadline startTime maxWaitTime < T.clock e := by
    obtain ⟨e, he⟩ := T.unbounded (deadline startTime maxWaitTime)
    exact ⟨e, .inr he⟩
  classical
  refine ⟨Nat.find hstop, Nat.zero_le _, fun j _ hj => ?_, fun j _ hj => ?_, Nat.find_spec hstop⟩
  · have hnot := Nat.find_min hstop hj
    rw [not_or, not_not] at hnot
    exact hnot.1
  · have hnot := Nat.find_min hstop hj
    rw [not_or, not_lt] at hnot
    exact hnot.2

/-! ## The result -/

/-- If the loop ends with a change, that is the first one; else no change is polled in time. -/
theorem Ends.flushed_iff (h : Ends size sizes T.clock startTime maxWaitTime 0 e) :
    Flushed size sizes T.polled startTime maxWaitTime ↔
      sizes e ≠ size ∧ T.polled e ≤ deadline startTime maxWaitTime := by
  constructor
  · rintro ⟨i, hpolled, hchange⟩
    have hle : e ≤ i := by
      by_contra hlt
      exact hchange (h.same i (Nat.zero_le i) (not_le.mp hlt))
    refine ⟨?_, (T.polled_mono hle).trans hpolled⟩
    rcases h.stop with hstop | hlate
    · exact hstop
    · rcases hle.eq_or_lt with rfl | hlt
      · exact hchange
      · exact absurd ((T.clock_le hlt).trans hpolled) (not_le.mpr hlate)
  · rintro ⟨hchange, hpolled⟩
    exact ⟨e, hpolled, hchange⟩

/-- The function ends. Its answer is right exactly if the clock, read after the first poll that finds
another size in time, does not show that the deadline has passed. -/
theorem waitUntilDataFlushed_detects_iff (T : Timeline) (size : ℤ) (sizes : ℕ → ℤ) (startTime : ℤ)
    (maxWaitTime : ℕ) :
    ∃ N result, (∀ fuel, N ≤ fuel →
        waitUntilDataFlushed fuel size sizes T.clock startTime maxWaitTime = result) ∧
      result ≠ .error .outOfFuel ∧
      (Detects result (Flushed size sizes T.polled startTime maxWaitTime) maxWaitTime ↔
        ∀ i, FirstChange size sizes i → T.polled i ≤ deadline startTime maxWaitTime →
          T.clock i ≤ deadline startTime maxWaitTime) := by
  obtain ⟨e, h⟩ := exists_ends T size sizes startTime maxWaitTime
  refine ⟨e + 2, _, fun fuel hfuel => h.loop hfuel, ?_, ?_⟩
  · split_ifs
    · simp
    · simp
  · have hfirst (i : ℕ) (hi : FirstChange size sizes i)
        (hpolled : T.polled i ≤ deadline startTime maxWaitTime) : i = e := by
      obtain ⟨hchange, -⟩ := h.flushed_iff.mp ⟨i, hpolled, hi.1⟩
      rcases lt_trichotomy i e with hlt | heq | hlt
      · exact absurd (h.same i (Nat.zero_le i) hlt) hi.1
      · exact heq
      · exact absurd (hi.2 e hlt) hchange
    rw [h.flushed_iff]
    by_cases hchange : sizes e ≠ size ∧ T.polled e ≤ deadline startTime maxWaitTime
    · have hchanged : FirstChange size sizes e :=
        ⟨hchange.1, fun j hj => h.same j (Nat.zero_le j) hj⟩
      constructor
      · intro hdetects i hi hpolled
        obtain ⟨t, ht⟩ := hdetects.returns hchange
        rw [hfirst i hi hpolled]
        by_contra hlate
        rw [if_neg hlate] at ht
        cases ht
      · intro hall
        exact ⟨fun _ => ⟨_, if_pos (hall e hchanged hchange.2)⟩, fun hnot => absurd hchange hnot⟩
    · refine iff_of_true ⟨fun h => absurd h hchange, fun _ => if_neg fun hclock => hchange ?_⟩ ?_
      · exact ⟨h.stop.resolve_right (not_lt.mpr hclock), (T.reads e).trans hclock⟩
      · intro i hi hpolled
        exact absurd (h.flushed_iff.mp ⟨i, hpolled, hi.1⟩) hchange

/-- A poll every 1.5 seconds, each with a second of sleep after it. -/
def steady : Timeline where
  polled i := 1500000 * i
  clock i := 1500000 * i + 1000000
  reads i := by omega
  next i := by push_cast; omega
  unbounded b := ⟨b.toNat, by have := Int.self_le_toNat b; omega⟩

/-- The size after the write-back. -/
def grows (after : ℕ) (i : ℕ) : ℤ := if i < after then 10 else 11

/-- The data is flushed at the second poll, long before the deadline. -/
theorem waitUntilDataFlushed_detects_steady :
    ∃ N result, (∀ fuel, N ≤ fuel →
        waitUntilDataFlushed fuel 10 (grows 1) steady.clock 0 1 = result) ∧
      result ≠ .error .outOfFuel ∧ Detects result (Flushed 10 (grows 1) steady.polled 0 1) 1 := by
  obtain ⟨N, result, hrun, hfuel, hiff⟩ := waitUntilDataFlushed_detects_iff steady 10 (grows 1) 0 1
  refine ⟨N, result, hrun, hfuel, hiff.mpr fun i hi _ => ?_⟩
  obtain rfl : i = 1 := by
    have hnot : ¬i < 1 := fun hlt => hi.1 (if_pos hlt)
    by_contra hne
    have hone := hi.2 1 (by omega)
    exact absurd hone (by decide)
  decide

/-- The data is flushed at the poll at 60 seconds, the deadline, but the clock is read at 61. -/
theorem waitUntilDataFlushed_misses :
    ¬∃ N result, (∀ fuel, N ≤ fuel →
        waitUntilDataFlushed fuel 10 (grows 40) steady.clock 0 1 = result) ∧
      Detects result (Flushed 10 (grows 40) steady.polled 0 1) 1 := by
  rintro ⟨N, result, hrun, hdetects⟩
  have hends : Ends 10 (grows 40) steady.clock 0 1 0 40 := by
    refine ⟨Nat.zero_le 40, fun j _ hj => if_pos hj, fun j _ hj => ?_, .inl (by decide)⟩
    simp only [steady, deadline]
    omega
  have hlate : ¬steady.clock 40 ≤ deadline 0 1 := by decide
  have hresult := hrun (N + 42) (by omega)
  rw [waitUntilDataFlushed, hends.loop (by omega), if_neg hlate] at hresult
  obtain ⟨t, ht⟩ := hdetects.returns ⟨40, by decide⟩
  rw [← hresult] at ht
  cases ht

end AutotestClient.WbKupdate
