import AutotestClient.Model.Primes
import AutotestClient.Shared.Sieve

/-! # The base that `make_primelist` makes -/

namespace AutotestClient.Primes

open Shared.Sieve

variable {s : Sieve} {i ii j ssize maxprime m : ℕ}

/-! ## The loop over the odd numbers -/

theorem clear_apply (hi : 0 < i) : clear s ii i ssize j = true ↔
    s j = true ∧ ¬ (ii ≤ j ∧ j < ssize ∧ i ∣ j - ii) := by
  fun_induction clear s ii i ssize with
  | case1 s ii hlt ih =>
      rw [ih]
      by_cases hj : j = ii
      · have hhere : ii ≤ j ∧ j < ssize ∧ i ∣ j - ii := ⟨hj.ge, by omega, by simp [hj]⟩
        simp [hj, Function.update_self]
        omega
      · have hprog := progression_succ hi hj
        rw [Function.update_of_ne hj]
        grind
  | case2 s ii hstop =>
      have hend : ¬ (ii ≤ j ∧ j < ssize) := by omega
      grind

theorem odd_sq (hodd : i % 2 = 1) : i * i % 2 = 1 := by
  rw [Nat.mul_mod, hodd]

/-- The entry of a square stands for it. -/
theorem entry_sq (hodd : i % 2 = 1) (hi : 3 ≤ i) : 3 + 2 * (i * i / 2 - 1) = i * i := by
  have hsq := odd_sq hodd
  have hle := Nat.mul_le_mul hi hi
  omega

/-- No odd number below `i` strikes out `m`. -/
def Left (i m : ℕ) : Prop := ∀ d, d % 2 = 1 → 3 ≤ d → d < i → d ∣ m → m < d * d

/-- The array after all odd numbers below `i`. -/
def Sieved (s : Sieve) (i ssize : ℕ) : Prop := ∀ j < ssize, s j = true ↔ Left i (3 + 2 * j)

theorem left_add_two (hodd : i % 2 = 1) (hi : 3 ≤ i) :
    Left (i + 2) m ↔ Left i m ∧ (i ∣ m → m < i * i) := by
  refine ⟨fun h => ⟨fun d hd hthree hlt => h d hd hthree (by omega),
    h i hodd hi (by omega)⟩, fun ⟨hbelow, hself⟩ d hd hthree hlt hdvd => ?_⟩
  rcases Nat.lt_or_ge d i with hdi | hge
  · exact hbelow d hd hthree hdi hdvd
  · obtain rfl : d = i := by omega
    exact hself hdvd

theorem sieved_clear (hodd : i % 2 = 1) (hi : 3 ≤ i) (hs : Sieved s i ssize) :
    Sieved (clear s (i * i / 2 - 1) i ssize) (i + 2) ssize := by
  intro j hj
  have hsq := entry_sq hodd hi
  have hdvd_sq : i ∣ 3 + 2 * (i * i / 2 - 1) := by
    rw [hsq]
    exact Nat.dvd_mul_right i i
  rw [clear_apply (by omega), hs j hj, left_add_two hodd hi]
  refine and_congr_right fun _ => ⟨fun hnot hdvd => ?_, ?_⟩
  · by_contra hge
    have hle : i * i / 2 - 1 ≤ j := by omega
    exact hnot ⟨hle, hj, (dvd_entry_iff hodd hdvd_sq hle).mp hdvd⟩
  · rintro hlt ⟨hle, -, hdvd⟩
    have hsmall := hlt ((dvd_entry_iff hodd hdvd_sq hle).mpr hdvd)
    omega

/-- A number whose square is struck out has a prime factor that has struck out its multiples. -/
theorem sieved_skip (hodd : i % 2 = 1) (hi : 3 ≤ i) (hlt : i * i / 2 - 1 < ssize)
    (hskip : s (i * i / 2 - 1) = false) (hs : Sieved s i ssize) : Sieved s (i + 2) ssize := by
  have hnot : ¬ Left i (i * i) := by
    rw [← entry_sq hodd hi, ← hs _ hlt, hskip]
    exact Bool.false_ne_true
  simp only [Left, not_forall] at hnot
  obtain ⟨d, hd, hthree, hdi, hdvd, -⟩ := hnot
  obtain ⟨p, hp, hpodd, hpthree, hle, hpi⟩ := exists_prime_of_dvd_sq hd (by omega) hdvd
  intro j hj
  rw [hs j hj, left_add_two hodd hi]
  refine (and_iff_left_of_imp fun hleft hdvd => ?_).symm
  have hsmall := hleft p hpodd hpthree (by omega) (hpi.trans hdvd)
  have hsq := Nat.mul_le_mul (show p ≤ i by omega) (show p ≤ i by omega)
  omega

theorem below_add_two (hodd : i % 2 = 1) (hgo : ¬ maxprime ≤ i * i)
    (hbelow : ∀ d < i, d % 2 = 1 → 3 ≤ d → d * d < maxprime) :
    ∀ d < i + 2, d % 2 = 1 → 3 ≤ d → d * d < maxprime := by
  intro d hlt hd hthree
  rcases Nat.lt_or_ge d i with hdi | hge
  · exact hbelow d hdi hd hthree
  · obtain rfl : d = i := by omega
    omega

/-- The loop ends with the first odd number whose square is not below `maxprime`. -/
theorem sieveBase_sieved (hodd : i % 2 = 1) (hi : 3 ≤ i) (hssize : ssize = maxprime / 2)
    (hbelow : ∀ d < i, d % 2 = 1 → 3 ≤ d → d * d < maxprime) (hs : Sieved s i ssize) :
    ∃ n, maxprime ≤ n * n ∧ (∀ d < n, d % 2 = 1 → 3 ≤ d → d * d < maxprime) ∧
      Sieved (sieveBase s i maxprime ssize) n ssize := by
  fun_induction sieveBase s i maxprime ssize with
  | case1 s i hstop => exact ⟨i, hstop, hbelow, hs⟩
  | case2 s i hgo hskip ih =>
      have hsq := entry_sq hodd hi
      exact ih (by omega) (by omega) (below_add_two hodd hgo hbelow)
        (sieved_skip hodd hi (by omega) hskip hs)
  | case3 s i hgo hset ih =>
      exact ih (by omega) (by omega) (below_add_two hodd hgo hbelow) (sieved_clear hodd hi hs)

/-- An odd prime, or the limit itself if it is the square of one. -/
def InBase (maxprime m : ℕ) : Prop := m.Prime ∨ (m = maxprime ∧ ∃ p, p.Prime ∧ m = p * p)

theorem left_of_prime (hm : m.Prime) : Left i m := by
  intro d _ hthree _ hdvd
  rcases (Nat.dvd_prime hm).mp hdvd with rfl | rfl
  · omega
  · have hsq := Nat.mul_le_mul_left d hthree
    omega

theorem left_iff_inBase {n : ℕ} (hodd : m % 2 = 1) (hm : 3 ≤ m) (hle : m ≤ maxprime)
    (hn : maxprime ≤ n * n) (hbelow : ∀ d < n, d % 2 = 1 → 3 ≤ d → d * d < maxprime) :
    Left n m ↔ InBase maxprime m := by
  constructor
  · intro hleft
    by_cases hp : m.Prime
    · exact .inl hp
    · obtain ⟨p, hp, hpodd, hthree, hdvd, hsq⟩ :=
        exists_small_prime_of_not_prime hodd (by omega) hp
      have hge : n ≤ p := by
        by_contra hlt
        have hsmall := hleft p hpodd hthree (by omega) hdvd
        omega
      have hmul := Nat.mul_le_mul hge hge
      exact .inr ⟨by omega, p, hp, by omega⟩
  · rintro (hp | ⟨rfl, p, hp, rfl⟩)
    · exact left_of_prime hp
    · -- a divisor of the square other than one is not below its root
      intro d hd hthree hlt hdvd
      have hsmall := hbelow d hlt hd hthree
      obtain ⟨q, hq, -, -, hqd, hqp⟩ := exists_prime_of_dvd_sq hd (by omega) hdvd
      obtain rfl := (Nat.prime_dvd_prime_iff_eq hq hp).mp hqp
      have hmul := Nat.mul_le_mul hqd hqd
      omega

/-- The odd numbers from three on that are left in the array. -/
def oddsLeft (maxprime : ℕ) : List ℕ :=
  ((List.range (maxprime / 2)).filter
    (sieveBase (fun _ => true) 3 maxprime (maxprime / 2))).map fun j => j * 2 + 3

theorem mem_oddsLeft {q : ℕ} (hq : q ∈ oddsLeft maxprime) :
    q % 2 = 1 ∧ 3 ≤ q ∧ q ≤ maxprime + 1 := by
  simp only [oddsLeft, List.mem_map, List.mem_filter, List.mem_range] at hq
  obtain ⟨j, ⟨hj, -⟩, rfl⟩ := hq
  omega

theorem oddsLeft_left (maxprime : ℕ) :
    ∃ n, maxprime ≤ n * n ∧ (∀ d < n, d % 2 = 1 → 3 ≤ d → d * d < maxprime) ∧
      ∀ j < maxprime / 2, j * 2 + 3 ∈ oddsLeft maxprime ↔ Left n (3 + 2 * j) := by
  obtain ⟨n, hn, hbelow, hsieved⟩ := @sieveBase_sieved (fun _ => true) 3 (maxprime / 2) maxprime
    rfl le_rfl rfl (fun d hd _ hthree => by omega)
    (fun j _ => iff_of_true rfl fun d _ hthree hlt => by omega)
  refine ⟨n, hn, hbelow, fun j hj => ?_⟩
  rw [← hsieved j hj]
  simp only [oddsLeft, List.mem_map, List.mem_filter, List.mem_range]
  refine ⟨?_, fun h => ⟨j, ⟨hj, h⟩, rfl⟩⟩
  rintro ⟨j', ⟨-, hset⟩, heq⟩
  obtain rfl : j' = j := by omega
  exact hset

theorem three_mem_oddsLeft (hmin : 2 ≤ maxprime) : 3 ∈ oddsLeft maxprime := by
  obtain ⟨n, -, -, hleft⟩ := oddsLeft_left maxprime
  exact (hleft 0 (by omega)).mpr (left_of_prime Nat.prime_three)

theorem mem_oddsLeft_iff (hodd : m % 2 = 1) (hm : 3 ≤ m) (hle : m ≤ maxprime) :
    m ∈ oddsLeft maxprime ↔ InBase maxprime m := by
  obtain ⟨n, hn, hbelow, hleft⟩ := oddsLeft_left maxprime
  have hentry : 3 + 2 * ((m - 3) / 2) = m ∧ (m - 3) / 2 * 2 + 3 = m := by omega
  have hmem := hleft ((m - 3) / 2) (by omega)
  rwa [hentry.1, hentry.2, left_iff_inBase hodd hm hle hn hbelow] at hmem

theorem oddsLeft_sorted : (oddsLeft maxprime).Pairwise (· < ·) := by
  apply List.Pairwise.map _ (fun a b hab => ?_) (List.pairwise_lt_range.filter _)
  omega

theorem oddsLeft_length_le : (oddsLeft maxprime).length ≤ maxprime / 2 := by
  rw [oddsLeft, List.length_map]
  exact (List.length_filter_le _ _).trans_eq List.length_range

/-- The list that `make_primelist` makes of the numbers that are left. -/
def basePrimes (maxprime : ℕ) : List ℕ :=
  if maxprime < (oddsLeft maxprime).getLastD 0 then (oddsLeft maxprime).dropLast
  else oddsLeft maxprime

theorem basePrimes_sublist : (basePrimes maxprime).Sublist (oddsLeft maxprime) := by
  rw [basePrimes]
  split
  · exact List.dropLast_sublist _
  · exact List.Sublist.refl _

theorem basePrimes_length_le : (basePrimes maxprime).length ≤ maxprime / 2 :=
  basePrimes_sublist.length_le.trans oddsLeft_length_le

/-- The only number that may be too large is the last one. -/
theorem mem_basePrimes : m ∈ basePrimes maxprime ↔ m ∈ oddsLeft maxprime ∧ m ≤ maxprime := by
  rw [basePrimes]
  rcases List.eq_nil_or_concat (oddsLeft maxprime) with hnil | ⟨front, last, hsplit⟩
  · simp [hnil]
  · have hlast := (@mem_oddsLeft maxprime last (by simp [hsplit])).2.2
    have hsorted := @oddsLeft_sorted maxprime
    rw [hsplit, List.concat_eq_append, List.pairwise_append] at hsorted
    have hfront : m ∈ front → m < last := fun hm => hsorted.2.2 m hm last (by simp)
    simp only [hsplit, List.concat_eq_append, List.dropLast_concat, List.getLastD_concat]
    split_ifs with hlarge
    · simp only [List.mem_append, List.mem_singleton]
      refine ⟨fun hm => ⟨.inl hm, by have := hfront hm; omega⟩, fun ⟨hm, hle⟩ => ?_⟩
      exact hm.resolve_right (by omega)
    · refine (and_iff_left_of_imp fun hm => ?_).symm
      rcases List.mem_append.mp hm with hm | hm
      · have hlt := hfront hm
        omega
      · rw [List.mem_singleton.mp hm]
        omega

theorem basePrimes_sorted : (basePrimes maxprime).Pairwise (· < ·) :=
  oddsLeft_sorted.sublist basePrimes_sublist

theorem mem_basePrimes_iff :
    m ∈ basePrimes maxprime ↔ m % 2 = 1 ∧ m ≤ maxprime ∧ InBase maxprime m := by
  rw [mem_basePrimes]
  constructor
  · rintro ⟨hm, hle⟩
    obtain ⟨hodd, hthree, -⟩ := mem_oddsLeft hm
    exact ⟨hodd, hle, (mem_oddsLeft_iff hodd hthree hle).mp hm⟩
  · rintro ⟨hodd, hle, hin⟩
    have hthree : 3 ≤ m := by
      rcases hin with hp | ⟨-, p, hp, rfl⟩
      · have htwo := hp.two_le
        omega
      · have hsq := Nat.mul_le_mul hp.two_le hp.two_le
        omega
    exact ⟨(mem_oddsLeft_iff hodd hthree hle).mpr hin, hle⟩

theorem base_basePrimes : Base (basePrimes maxprime) maxprime where
  odd _ hq := (mem_basePrimes_iff.mp hq).1
  three_le _ hq := (mem_oddsLeft (mem_basePrimes.mp hq).1).2.1
  sorted := basePrimes_sorted
  le _ hq := (mem_basePrimes.mp hq).2
  complete _ hp hodd hle := mem_basePrimes_iff.mpr ⟨hodd, hle, .inl hp⟩

/-- `make_primelist` fails when there are no odd numbers to look at. The numbers of the list are to
fit into 32 bits. -/
theorem makePrimelist_eq (hmax : maxprime + 1 < 2 ^ 32) : makePrimelist maxprime =
    if maxprime < 2 then .error .noPrimes
    else .ok ((basePrimes maxprime).map fun q => ⟨q, -1⟩) := by
  have hlist : ((List.range (maxprime / 2)).filter
      (sieveBase (fun _ => true) 3 maxprime (maxprime / 2))).map
        (fun j => (⟨(j * 2 + 3) % 2 ^ 32, -1⟩ : Prime)) =
      (oddsLeft maxprime).map fun q => ⟨q, -1⟩ := by
    rw [oddsLeft, List.map_map]
    refine List.map_congr_left fun j hj => ?_
    have hj := List.mem_range.mp (List.mem_filter.mp hj).1
    rw [Nat.mod_eq_of_lt (by omega)]
    rfl
  rw [makePrimelist]
  simp only [hlist]
  split_ifs with hsmall
  · have hnil : oddsLeft maxprime = [] := by
      rw [← List.length_eq_zero_iff]
      have hle := @oddsLeft_length_le maxprime
      omega
    simp [hnil]
  · rcases List.eq_nil_or_concat (oddsLeft maxprime) with hnil | ⟨front, last, hsplit⟩
    · have hmem := three_mem_oddsLeft (Nat.le_of_not_lt hsmall)
      simp [hnil] at hmem
    · simp only [basePrimes, hsplit, List.concat_eq_append, List.map_append, List.map_cons,
        List.map_nil, List.getLast?_concat, List.dropLast_concat, List.getLastD_concat]
      split <;> simp

/-- `make_primelist` makes the odd primes up to its limit in order, and one number more when the
limit is the square of an odd prime: its loop stops in front of this square. -/
theorem primelist_exact (hmin : 2 ≤ maxprime) (hmax : maxprime + 1 < 2 ^ 32) :
    ∃ primes, makePrimelist maxprime = .ok primes ∧
      (primes.map Prime.prime).Pairwise (· < ·) ∧ (∀ p ∈ primes, p.rem = -1) ∧
      ∀ m, m ∈ primes.map Prime.prime ↔ m % 2 = 1 ∧ m ≤ maxprime ∧
        (m.Prime ∨ (m = maxprime ∧ ∃ p, p.Prime ∧ m = p * p)) := by
  have hprimes : ((basePrimes maxprime).map fun q => (⟨q, -1⟩ : Prime)).map Prime.prime =
      basePrimes maxprime := by
    simp [Function.comp_def]
  refine ⟨_, (makePrimelist_eq hmax).trans (if_neg (by omega)), ?_, ?_, ?_⟩
  · rw [hprimes]
    exact basePrimes_sorted
  · intro p hp
    obtain ⟨q, -, rfl⟩ := List.mem_map.mp hp
    rfl
  · intro m
    rw [hprimes]
    exact mem_basePrimes_iff

/-- For the primes up to nine the list has nine itself. -/
theorem primelist_exact_nine :
    ∃ primes, makePrimelist 9 = .ok primes ∧ 9 ∈ primes.map Prime.prime := by
  obtain ⟨primes, hrun, -, -, hmem⟩ := @primelist_exact 9 (by decide) (by decide)
  exact ⟨primes, hrun, (hmem 9).mpr ⟨rfl, le_rfl, .inr ⟨rfl, 3, Nat.prime_three, rfl⟩⟩⟩

end AutotestClient.Primes
