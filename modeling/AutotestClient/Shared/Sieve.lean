import Mathlib.Algebra.Order.Ring.Abs
import Mathlib.Data.Nat.Prime.Basic
import Mathlib.Tactic.Common

/-! # Sieves

A sieve strikes out the multiples of the members of its base, each from its square on. -/

namespace AutotestClient.Shared.Sieve

/-- No member of `base` strikes out `m`. -/
def Survives (base : List ℕ) (m : ℕ) : Prop :=
  ∀ q ∈ base, q ∣ m → m < q * q

@[simp] theorem survives_nil (m : ℕ) : Survives [] m := by simp [Survives]

@[simp] theorem survives_cons {q m : ℕ} {base : List ℕ} :
    Survives (q :: base) m ↔ (q ∣ m → m < q * q) ∧ Survives base m := by
  simp [Survives]

theorem survives_of_lt {base : List ℕ} {m : ℕ} (h : ∀ q ∈ base, m < q * q) : Survives base m :=
  fun q hq _ => h q hq

theorem survives_of_prime {base : List ℕ} {m : ℕ} (htwo : ∀ q ∈ base, 2 ≤ q) (hm : m.Prime) :
    Survives base m := by
  intro q hq hdvd
  obtain rfl | rfl := (Nat.dvd_prime hm).mp hdvd
  · exact absurd (htwo 1 hq) (by omega)
  · have hsq := Nat.mul_le_mul_left q hm.two_le
    have hpos := hm.pos
    omega

instance (base : List ℕ) : DecidablePred (Survives base) := fun m =>
  inferInstanceAs (Decidable (∀ q ∈ base, q ∣ m → m < q * q))

/-- A base for the odd numbers up to the square of `n + 1`: odd numbers up to `n` in increasing
order, among them all primes but two. -/
structure Base (base : List ℕ) (n : ℕ) : Prop where
  odd : ∀ q ∈ base, q % 2 = 1
  three_le : ∀ q ∈ base, 3 ≤ q
  le : ∀ q ∈ base, q ≤ n
  sorted : base.Pairwise (· < ·)
  complete : ∀ p, p.Prime → p % 2 = 1 → p ≤ n → p ∈ base

/-- The least factor of an odd number other than one is an odd prime. -/
theorem minFac_of_odd {m : ℕ} (hodd : m % 2 = 1) (hne : m ≠ 1) :
    m.minFac.Prime ∧ m.minFac % 2 = 1 ∧ 3 ≤ m.minFac := by
  have hp : m.minFac.Prime := Nat.minFac_prime hne
  have hpodd := (Nat.odd_iff.mpr hodd).of_dvd_nat (Nat.minFac_dvd m)
  have htwo := hp.two_le
  rw [Nat.odd_iff] at hpodd
  exact ⟨hp, hpodd, by omega⟩

/-- An odd number with a divisor that is neither itself nor one has an odd prime divisor whose
square is no larger. -/
theorem exists_small_prime_of_not_prime {m : ℕ} (hodd : m % 2 = 1) (htwo : 2 ≤ m)
    (hm : ¬ m.Prime) : ∃ p, p.Prime ∧ p % 2 = 1 ∧ 3 ≤ p ∧ p ∣ m ∧ p * p ≤ m := by
  obtain ⟨hp, hpodd, hthree⟩ := minFac_of_odd hodd (by omega)
  have hsq := Nat.minFac_sq_le_self (by omega) hm
  rw [pow_two] at hsq
  exact ⟨m.minFac, hp, hpodd, hthree, Nat.minFac_dvd m, hsq⟩

/-- An odd divisor of a square has an odd prime factor in common with the root. -/
theorem exists_prime_of_dvd_sq {d i : ℕ} (hodd : d % 2 = 1) (hne : d ≠ 1) (hdvd : d ∣ i * i) :
    ∃ p, p.Prime ∧ p % 2 = 1 ∧ 3 ≤ p ∧ p ≤ d ∧ p ∣ i := by
  obtain ⟨hp, hpodd, hthree⟩ := minFac_of_odd hodd hne
  have hpi : d.minFac ∣ i := (hp.dvd_mul.mp ((Nat.minFac_dvd d).trans hdvd)).elim id id
  exact ⟨d.minFac, hp, hpodd, hthree, Nat.minFac_le (by omega), hpi⟩

variable {base : List ℕ} {n : ℕ}

/-- Below the square of `n + 1` the primes are what the sieve leaves. -/
theorem Base.survives_iff_prime (h : Base base n) {m : ℕ} (hodd : m % 2 = 1) (htwo : 2 ≤ m)
    (hlt : m < (n + 1) * (n + 1)) : Survives base m ↔ m.Prime := by
  refine ⟨fun hs => ?_, survives_of_prime fun q hq => by have := h.three_le q hq; omega⟩
  by_contra hm
  obtain ⟨p, hp, hpodd, -, hdvd, hsq⟩ := exists_small_prime_of_not_prime hodd htwo hm
  have hle : p ≤ n := by
    by_contra hgt
    have := Nat.mul_le_mul (Nat.succ_le_of_lt (Nat.lt_of_not_le hgt))
      (Nat.succ_le_of_lt (Nat.lt_of_not_le hgt))
    simp only [Nat.succ_eq_add_one] at this
    omega
  exact absurd (hs p (h.complete p hp hpodd hle) hdvd) (by omega)

/-- What the sieve leaves has no odd prime factor up to `n` but itself. -/
theorem Base.not_dvd_of_survives (h : Base base n) {m p : ℕ} (hs : Survives base m)
    (hlt : (n + 1) * (n + 1) ≤ m) (hp : p.Prime) (hodd : p % 2 = 1) (hle : p ≤ n) : ¬ p ∣ m := by
  intro hdvd
  have hsq := hs p (h.complete p hp hodd hle) hdvd
  have := Nat.mul_le_mul (Nat.le_succ_of_le hle) (Nat.le_succ_of_le hle)
  simp only [Nat.succ_eq_add_one] at this
  omega

/-! ## Progressions

Entry `j` of an array for the odd numbers from `fr` on stands for `fr + 2 * j`. -/

theorem dvd_of_dvd_two_mul {q d : ℕ} (hodd : q % 2 = 1) (h : q ∣ 2 * d) : q ∣ d :=
  (Nat.Coprime.symm ((Nat.coprime_two_left).mpr (Nat.odd_iff.mpr hodd))).dvd_of_dvd_mul_left h

/-- The multiples of `q` from the one at entry `i` on. -/
theorem dvd_entry_iff {fr q i j : ℕ} (hodd : q % 2 = 1) (hi : q ∣ fr + 2 * i) (hij : i ≤ j) :
    q ∣ fr + 2 * j ↔ q ∣ j - i := by
  have hsplit : fr + 2 * j = fr + 2 * i + 2 * (j - i) := by omega
  rw [hsplit, Nat.dvd_add_right hi]
  exact ⟨dvd_of_dvd_two_mul hodd, fun h => h.mul_left 2⟩

/-- The progression after its first member. -/
theorem progression_succ {i ii j : ℕ} (hi : 0 < i) (hne : j ≠ ii) :
    ii + i ≤ j ∧ i ∣ j - (ii + i) ↔ ii ≤ j ∧ i ∣ j - ii := by
  constructor
  · rintro ⟨hle, hdvd⟩
    have hsplit : j - ii = j - (ii + i) + i := by omega
    exact ⟨by omega, hsplit ▸ Nat.dvd_add_self_right.mpr hdvd⟩
  · rintro ⟨hle, hdvd⟩
    have hge := Nat.le_of_dvd (by omega) hdvd
    rw [← Nat.sub_sub]
    exact ⟨by omega, Nat.dvd_sub hdvd (Nat.dvd_refl i)⟩

end AutotestClient.Shared.Sieve
