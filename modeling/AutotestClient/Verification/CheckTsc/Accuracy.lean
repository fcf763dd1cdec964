import AutotestClient.Model.CheckTsc
import Mathlib.Algebra.Order.Group.Abs
import Mathlib.Algebra.Order.Group.Unbundled.Int
import Mathlib.Algebra.Order.Ring.Int
import Mathlib.Data.Nat.Bitwise

/-! # Accuracy of the measured skew

`tsc_delta` keeps the exchange with the shortest round trip and compares the slave's
reading with the midpoint of the two readings of the master, in 64-bit arithmetic. -/

namespace AutotestClient.CheckTsc

/-! ## What a measurement is for -/

/-- `t1 - t0` over the integers. -/
def Sample.roundTrip (x : Sample) : ℕ := x.t1.toNat - x.t0.toNat

/-- The middle of the two readings of the master, rounded down. -/
def Sample.midpoint (x : Sample) : ℕ := (x.t0.toNat + x.t1.toNat) / 2

/-- The first sample with the shortest round trip. -/
def Shortest (samples : List Sample) (x : Sample) : Prop :=
  samples.find? (fun y => decide (∀ z ∈ samples, y.roundTrip ≤ z.roundTrip)) = some x

/-- The master's clock did not go back, nor through its whole range. -/
structure Ordered (x : Sample) : Prop where
  le : x.t0.toNat ≤ x.t1.toNat
  lt : x.roundTrip < 2 ^ 64 - 1

/-- The slave's clock showed the time `t` between the two readings plus `skew`. -/
def Skewed (skew : ℤ) (x : Sample) : Prop :=
  ∃ t : ℕ, x.t0.toNat ≤ t ∧ t ≤ x.t1.toNat ∧ (x.tm.toNat : ℤ) = t + skew

/-! ## The sample that is kept -/

def Sample.toBest (x : Sample) : Best := ⟨x.t0, x.t1, x.tm⟩

/-- `best_t1 - best_t0`. -/
def Best.span (b : Best) : ℕ := (b.t1 - b.t0).toNat

theorem span_toBest {x : Sample} (hx : Ordered x) : x.toBest.span = x.roundTrip := by
  have hle := hx.le
  have h1 := x.t1.isLt
  simp only [Best.span, Sample.toBest, Sample.roundTrip, BitVec.toNat_sub]
  omega

theorem improve_eq {b : Best} {x : Sample} (hx : Ordered x) :
    b.improve x = if x.roundTrip < b.span then x.toBest else b := by
  rw [← span_toBest hx]
  rfl

/-- The samples seen so far either leave the best one alone or replace it by the first
shortest among them. -/
theorem foldl_improve {samples : List Sample} (hread : ∀ x ∈ samples, Ordered x) (b : Best) :
    ((∀ x ∈ samples, b.span ≤ x.roundTrip) ∧ samples.foldl Best.improve b = b) ∨
      ∃ newer x older, samples = older ++ x :: newer ∧ x.roundTrip < b.span ∧
        (∀ y ∈ older, x.roundTrip < y.roundTrip) ∧ (∀ y ∈ newer, x.roundTrip ≤ y.roundTrip) ∧
        samples.foldl Best.improve b = x.toBest := by
  induction samples generalizing b with
  | nil => simp
  | cons y samples ih =>
      rw [List.forall_mem_cons] at hread
      rw [List.foldl_cons, improve_eq hread.1]
      by_cases hy : y.roundTrip < b.span
      · rw [if_pos hy]
        right
        rcases ih hread.2 y.toBest with ⟨hall, hfold⟩ | ⟨newer, x, older, rfl, hlt, hold, hnew, hfold⟩
        · rw [span_toBest hread.1] at hall
          exact ⟨samples, y, [], rfl, hy, by simp, hall, hfold⟩
        · rw [span_toBest hread.1] at hlt
          refine ⟨newer, x, y :: older, rfl, hlt.trans hy, ?_, hnew, hfold⟩
          rw [List.forall_mem_cons]
          exact ⟨hlt, hold⟩
      · rw [if_neg hy]
        rw [not_lt] at hy
        rcases ih hread.2 b with ⟨hall, hfold⟩ | ⟨newer, x, older, rfl, hlt, hold, hnew, hfold⟩
        · refine .inl ⟨?_, hfold⟩
          rw [List.forall_mem_cons]
          exact ⟨hy, hall⟩
        · refine .inr ⟨newer, x, y :: older, rfl, hlt, ?_, hnew, hfold⟩
          rw [List.forall_mem_cons]
          exact ⟨hlt.trans_le hy, hold⟩

theorem span_start : Best.start.span = 2 ^ 64 - 1 := by decide

/-- The initial values are beaten by any sample. -/
theorem kept_shortest {samples : List Sample} (hne : samples ≠ [])
    (hread : ∀ x ∈ samples, Ordered x) :
    ∃ x ∈ samples, Shortest samples x ∧ samples.foldl Best.improve Best.start = x.toBest := by
  rcases foldl_improve hread Best.start with ⟨hall, -⟩ | ⟨newer, x, older, rfl, -, hold, hnew, hfold⟩
  · obtain ⟨x, hx⟩ := List.exists_mem_of_ne_nil samples hne
    have hle := hall x hx
    have hlt := (hread x hx).lt
    rw [span_start] at hle
    omega
  · refine ⟨x, by simp, ?_, hfold⟩
    rw [Shortest, List.find?_eq_some_iff_append]
    refine ⟨?_, older, newer, rfl, ?_⟩
    · simp only [decide_eq_true_eq, List.forall_mem_append, List.forall_mem_cons]
      exact ⟨fun y hy => (hold y hy).le, le_refl _, hnew⟩
    · intro y hy
      simp only [Bool.not_eq_true', decide_eq_false_iff_not, not_forall, not_le]
      exact ⟨x, by simp, hold y hy⟩

/-! ## The midpoint -/

theorem toNat_and_and_one (a b : BitVec 64) :
    (a &&& b &&& 1).toNat = a.toNat % 2 * (b.toNat % 2) := by
  rw [BitVec.and_assoc]
  have hb : (b &&& 1).toNat = b.toNat % 2 := by
    rw [BitVec.toNat_and]
    exact Nat.and_one_is_mod _
  rw [BitVec.toNat_and, hb]
  rcases Nat.mod_two_eq_zero_or_one b.toNat with h | h
  · simp [h]
  · rw [h, Nat.and_one_is_mod, mul_one]

/-- The sum of the halves is the midpoint of any two readings, without overflow. -/
theorem toNat_halves (t0 t1 : BitVec 64) :
    (t0 / 2 + t1 / 2 + (t0 &&& t1 &&& 1)).toNat = (t0.toNat + t1.toNat) / 2 := by
  have h0 := t0.isLt
  have h1 := t1.isLt
  have hand := toNat_and_and_one t0 t1
  rw [BitVec.toNat_add, BitVec.toNat_add, BitVec.toNat_udiv, BitVec.toNat_udiv, hand]
  have htwo : (2 : BitVec 64).toNat = 2 := rfl
  rw [htwo]
  rcases Nat.mod_two_eq_zero_or_one t0.toNat with ha | ha <;>
    rcases Nat.mod_two_eq_zero_or_one t1.toNat with hb | hb <;>
    rw [ha, hb] <;> omega

/-! ## The difference -/

/-- The signed reading of a difference of two 64-bit numbers. -/
theorem toInt_sub_eq (m t : BitVec 64) :
    (m - t).toInt =
      if (m.toNat : ℤ) - t.toNat < -2 ^ 63 then (m.toNat : ℤ) - t.toNat + 2 ^ 64
      else if (m.toNat : ℤ) - t.toNat < 2 ^ 63 then (m.toNat : ℤ) - t.toNat
      else (m.toNat : ℤ) - t.toNat - 2 ^ 64 := by
  have hm := m.isLt
  have ht := t.isLt
  rw [BitVec.toInt_eq_toNat_cond, BitVec.toNat_sub]
  split_ifs <;> omega

theorem delta_toBest (x : Sample) :
    x.toBest.delta.toInt =
      if (x.midpoint : ℤ) - x.tm.toNat < -2 ^ 63 then (x.midpoint : ℤ) - x.tm.toNat + 2 ^ 64
      else if (x.midpoint : ℤ) - x.tm.toNat < 2 ^ 63 then (x.midpoint : ℤ) - x.tm.toNat
      else (x.midpoint : ℤ) - x.tm.toNat - 2 ^ 64 := by
  have hmid : (x.t0 / 2 + x.t1 / 2 + (x.t0 &&& x.t1 &&& 1)).toNat = x.midpoint :=
    toNat_halves x.t0 x.t1
  rw [← hmid]
  exact toInt_sub_eq _ _

/-- The midpoint is off by at most half the round trip, rounded up. -/
theorem midpoint_skew {x : Sample} (hx : Ordered x) {skew : ℤ} (hskew : Skewed skew x) :
    |(x.midpoint : ℤ) - x.tm.toNat + skew| ≤ ((x.roundTrip + 1) / 2 : ℕ) := by
  obtain ⟨t, h0, h1, ht⟩ := hskew
  have hle := hx.le
  rw [abs_le]
  simp only [Sample.midpoint, Sample.roundTrip]
  omega

/-! ## The verdict -/

/-- Half a round trip, rounded up. -/
def Sample.uncertainty (x : Sample) : ℕ := (x.roundTrip + 1) / 2

/-- What is expected of a measurement that keeps `x`: the midpoint is the one over the
integers, the delta is off by no more than the uncertainty, and a skew that is larger
than that and the threshold counts as an error. -/
structure Accurate (c : Config) (samples : List Sample) (skew : ℤ) (x : Sample) : Prop where
  kept : samples.foldl Best.improve Best.start = x.toBest
  midpoint : ∀ t0 t1 : Tsc,
    (t0 / 2 + t1 / 2 + (t0 &&& t1 &&& 1)).toNat = (t0.toNat + t1.toNat) / 2
  bound : |(tscDelta samples).toInt + skew| ≤ x.uncertainty
  counted : c.threshold + x.uncertainty < |skew| → c.verdict (tscDelta samples) = 1

theorem verdict_of_ne_intMin {c : Config} {delta : BitVec 64} (hne : delta.toInt ≠ -2 ^ 63)
    (hlt : c.threshold < |delta.toInt|) : c.verdict delta = 1 := by
  have hmin : delta ≠ BitVec.intMin 64 := by
    rintro rfl
    exact hne (by decide)
  have habs : delta.abs.toInt = |delta.toInt| := by
    rw [BitVec.toInt_abs_eq_natAbs_of_ne_intMin hmin, Int.natCast_natAbs]
  rw [Config.verdict, habs, if_pos hlt]

/-- The one delta whose `llabs` is negative is below any threshold. -/
theorem verdict_intMin {c : Config} (hth : -2 ^ 63 ≤ c.threshold) {delta : BitVec 64}
    (hmin : delta.toInt = -2 ^ 63) : c.verdict delta = 0 := by
  have heq : delta = BitVec.intMin 64 := BitVec.eq_of_toInt_eq (hmin.trans (by decide))
  have habs : (BitVec.intMin 64).abs.toInt = -2 ^ 63 := by decide
  rw [Config.verdict, heq, habs, if_neg (not_lt.mpr hth)]

theorem uncertainty_lt {x : Sample} (hx : Ordered x) : (x.uncertainty : ℤ) < 2 ^ 63 := by
  have hlt := hx.lt
  simp only [Sample.uncertainty]
  omega

instance (samples : List Sample) (x : Sample) : Decidable (Shortest samples x) :=
  inferInstanceAs (Decidable (_ = _))

/-- A difference that fits into 64 bits is the delta. -/
theorem delta_of_fits {x : Sample} (hlo : -2 ^ 63 ≤ (x.midpoint : ℤ) - x.tm.toNat)
    (hhi : (x.midpoint : ℤ) - x.tm.toNat < 2 ^ 63) :
    x.toBest.delta.toInt = (x.midpoint : ℤ) - x.tm.toNat := by
  rw [delta_toBest, if_neg (not_lt.mpr hlo), if_pos hhi]

/-- One that does not fit makes the delta wrong by `2^64`, which no uncertainty covers. -/
theorem fits_of_bound {x : Sample} (hx : Ordered x) {skew : ℤ} (hskew : Skewed skew x)
    (hbound : |x.toBest.delta.toInt + skew| ≤ x.uncertainty) :
    -2 ^ 63 ≤ (x.midpoint : ℤ) - x.tm.toNat ∧ (x.midpoint : ℤ) - x.tm.toNat < 2 ^ 63 := by
  have hoff := midpoint_skew hx hskew
  have hunc := uncertainty_lt hx
  change |_| ≤ (x.uncertainty : ℤ) at hoff
  rw [delta_toBest, abs_le] at hbound
  rw [abs_le] at hoff
  split_ifs at hbound <;> omega

theorem counted_of_abs_lt {x : Sample} (hx : Ordered x) {skew : ℤ} (hskew : Skewed skew x)
    {c : Config} (hd : |(x.midpoint : ℤ) - x.tm.toNat| < 2 ^ 63)
    (hlarge : c.threshold + x.uncertainty < |skew|) : c.verdict x.toBest.delta = 1 := by
  have hoff := midpoint_skew hx hskew
  change |_| ≤ (x.uncertainty : ℤ) at hoff
  have hfits := abs_lt.mp hd
  have hdelta := delta_of_fits hfits.1.le hfits.2
  -- the skew is at most the delta and the uncertainty together
  have hsum := abs_add_le ((x.midpoint : ℤ) - x.tm.toNat + skew) (-((x.midpoint : ℤ) - x.tm.toNat))
  rw [add_neg_cancel_comm, abs_neg] at hsum
  apply verdict_of_ne_intMin
  · rw [hdelta]
    exact hfits.1.ne'
  · rw [hdelta]
    omega

/-- A measurement is accurate exactly if the midpoint and the slave's reading of the kept
exchange are less than `2^63` apart, or the slave is ahead by exactly that much but the
skew need not be counted. -/
theorem tscDelta_accurate_iff {samples : List Sample} (hne : samples ≠ [])
    (hread : ∀ x ∈ samples, Ordered x) {skew : ℤ} (hskew : ∀ x ∈ samples, Skewed skew x)
    {c : Config} (hth : -2 ^ 63 ≤ c.threshold) :
    ∃ x, Shortest samples x ∧
      (Accurate c samples skew x ↔
        |(x.midpoint : ℤ) - x.tm.toNat| < 2 ^ 63 ∨
          (x.midpoint : ℤ) - x.tm.toNat = -2 ^ 63 ∧ |skew| ≤ c.threshold + x.uncertainty) := by
  obtain ⟨x, hx, hshort, hkept⟩ := kept_shortest hne hread
  have htsc : tscDelta samples = x.toBest.delta := by rw [tscDelta, hkept]
  refine ⟨x, hshort, ?_⟩
  constructor
  · intro hacc
    have hbound := hacc.bound
    rw [htsc] at hbound
    obtain ⟨hlo, hhi⟩ := fits_of_bound (hread x hx) (hskew x hx) hbound
    by_cases hmin : (x.midpoint : ℤ) - x.tm.toNat = -2 ^ 63
    · right
      refine ⟨hmin, ?_⟩
      by_contra hlarge
      have hcounted := hacc.counted (not_le.mp hlarge)
      have hdelta : x.toBest.delta.toInt = -2 ^ 63 := (delta_of_fits hlo hhi).trans hmin
      rw [htsc, verdict_intMin hth hdelta] at hcounted
      cases hcounted
    · left
      exact abs_lt.mpr ⟨lt_of_le_of_ne hlo (Ne.symm hmin), hhi⟩
  · intro hd
    have hfits : -2 ^ 63 ≤ (x.midpoint : ℤ) - x.tm.toNat ∧ (x.midpoint : ℤ) - x.tm.toNat < 2 ^ 63 := by
      rcases hd with hlt | ⟨hmin, -⟩
      · exact ⟨(abs_lt.mp hlt).1.le, (abs_lt.mp hlt).2⟩
      · rw [hmin]
        decide
    refine ⟨hkept, toNat_halves, ?_, ?_⟩
    · rw [htsc, delta_of_fits hfits.1 hfits.2]
      exact midpoint_skew (hread x hx) (hskew x hx)
    · intro hlarge
      rcases hd with hlt | ⟨-, hsmall⟩
      · rw [htsc]
        exact counted_of_abs_lt (hread x hx) (hskew x hx) hlt hlarge
      · exact absurd hlarge (not_lt.mpr hsmall)

/-- Ten exchanges, the third of which is the shortest, with a slave 1000 cycles ahead. -/
def aheadSamples : List Sample :=
  [⟨100, 1110, 160⟩, ⟨300, 1320, 350⟩, ⟨500, 1510, 525⟩] ++ List.replicate 7 ⟨700, 1705, 730⟩

/-- A skew of 1000 is found with a threshold of 500. -/
theorem tscDelta_accurate_ahead :
    ∃ x, Shortest aheadSamples x ∧ Accurate ⟨[(0, 1)], 10, 500⟩ aheadSamples 1000 x ∧
      (⟨[(0, 1)], 10, 500⟩ : Config).verdict (tscDelta aheadSamples) = 1 := by
  have hread : ∀ x ∈ aheadSamples, x.t0.toNat ≤ x.t1.toNat ∧ x.roundTrip < 2 ^ 64 - 1 := by
    decide +kernel
  have hskew : ∀ x ∈ aheadSamples, x.t0.toNat + 1000 ≤ x.tm.toNat ∧
      x.tm.toNat ≤ x.t1.toNat + 1000 := by decide +kernel
  obtain ⟨x, hshort, hiff⟩ := tscDelta_accurate_iff (c := ⟨[(0, 1)], 10, 500⟩)
    (by decide : aheadSamples ≠ []) (fun x hx => ⟨(hread x hx).1, (hread x hx).2⟩)
    (fun x hx => ⟨x.tm.toNat - 1000, by have := hskew x hx; omega, by have := hskew x hx; omega,
      by have := hskew x hx; omega⟩ : ∀ x ∈ aheadSamples, Skewed 1000 x) (by decide)
  have hthird : Shortest aheadSamples ⟨500, 1510, 525⟩ := by decide +kernel
  obtain rfl := Option.some.inj (hshort.symm.trans hthird)
  have hacc := hiff.mpr (.inl (by decide +kernel))
  exact ⟨_, hshort, hacc, hacc.counted (by decide +kernel)⟩

/-- All readings of the master are 0 and the slave is ahead by `2^63`. -/
def halfRangeSamples : List Sample := List.replicate 10 ⟨0, 0x8000000000000000, 0⟩

/-- The delta is the least 64-bit integer, and the skew is not counted. -/
theorem tscDelta_accurate_fails :
    (∀ x ∈ halfRangeSamples, Ordered x) ∧ (∀ x ∈ halfRangeSamples, Skewed (2 ^ 63) x) ∧
      (tscDelta halfRangeSamples).toInt = -2 ^ 63 ∧
      (⟨[(0, 1)], 10, 500⟩ : Config).verdict (tscDelta halfRangeSamples) = 0 ∧
      ∀ x, Shortest halfRangeSamples x →
        ¬Accurate ⟨[(0, 1)], 10, 500⟩ halfRangeSamples (2 ^ 63) x := by
  have hdelta : (tscDelta halfRangeSamples).toInt = -2 ^ 63 := by decide +kernel
  have hverdict : (⟨[(0, 1)], 10, 500⟩ : Config).verdict (tscDelta halfRangeSamples) = 0 :=
    verdict_intMin (by decide) hdelta
  refine ⟨?_, ?_, hdelta, hverdict, ?_⟩
  · intro x hx
    obtain rfl := List.eq_of_mem_replicate hx
    exact ⟨by decide, by decide⟩
  · intro x hx
    obtain rfl := List.eq_of_mem_replicate hx
    exact ⟨0, by decide, by decide, by decide +kernel⟩
  · intro x hx hacc
    have hmem := List.mem_of_find?_eq_some hx
    obtain rfl := List.eq_of_mem_replicate hmem
    have hcounted := hacc.counted (by decide +kernel)
    rw [hverdict] at hcounted
    cases hcounted

end AutotestClient.CheckTsc
