import AutotestClient.Verification.Primes.Search

/-! # The primes that `primes.c` reports -/

namespace AutotestClient.Primes

open Shared.Sieve

variable {probab : ℕ → Bool} {est : ℕ → ℕ} {s : Sieve} {o : Options} {r : Report}
  {fr upTo : ℤ} {l : List ℕ} {m p : ℕ}

/-! ## The reports of a list of primes -/

theorem report_printed :
    (report o r p).printed = r.printed ++ if o.flagPrint ≠ 0 then [p] else [] := by
  rw [report]
  split_ifs <;> simp

theorem report_totalPrimes : (report o r p).totalPrimes = (r.totalPrimes + 1) % 2 ^ 64 := by
  rw [report]
  split_ifs <;> rfl

theorem report_prevPrimeLow (hgap : o.flagMaxgap = true) (hp : p < 2 ^ 64) :
    (report o r p).prevPrimeLow = p := by
  rw [report, if_pos hgap]
  exact Nat.mod_eq_of_lt hp

theorem report_maxgap_first (hgap : o.flagMaxgap = true) (hprev : r.prevPrimeLow = 0) :
    (report o r p).maxgap = r.maxgap := by
  rw [report, if_pos hgap]
  split_ifs <;> simp_all

theorem report_maxgap (hgap : o.flagMaxgap = true) (hprev : r.prevPrimeLow ≠ 0)
    (hlt : r.prevPrimeLow < p) (hp : p < 2 ^ 64) :
    (report o r p).maxgap = max r.maxgap (p - r.prevPrimeLow) := by
  have hdiff : (p % 2 ^ 64 + (2 ^ 64 - r.prevPrimeLow)) % 2 ^ 64 = p - r.prevPrimeLow := by
    omega
  rw [report, if_pos hgap]
  split_ifs <;> simp only [hdiff, Nat.max_def] <;> split_ifs <;> omega

theorem foldl_report_printed :
    (l.foldl (report o) r).printed = r.printed ++ if o.flagPrint ≠ 0 then l else [] := by
  induction l generalizing r with
  | nil => simp
  | cons p l ih =>
      rw [List.foldl_cons, ih, report_printed]
      split_ifs <;> simp

theorem foldl_report_totalPrimes (hr : r.totalPrimes < 2 ^ 64) :
    (l.foldl (report o) r).totalPrimes = (r.totalPrimes + l.length) % 2 ^ 64 := by
  induction l generalizing r with
  | nil => exact (Nat.mod_eq_of_lt hr).symm
  | cons p l ih =>
      rw [List.foldl_cons, ih, report_totalPrimes, List.length_cons]
      · omega
      · rw [report_totalPrimes]
        omega

/-- The largest difference between neighbours. -/
def largestGap : List ℕ → ℕ
  | p :: q :: rest => max (q - p) (largestGap (q :: rest))
  | _ => 0

theorem foldl_report_maxgap_next (hgap : o.flagMaxgap = true) (hprev : r.prevPrimeLow ≠ 0)
    (hsorted : (r.prevPrimeLow :: l).Pairwise (· < ·)) (hl : ∀ p ∈ l, p < 2 ^ 64) :
    (l.foldl (report o) r).maxgap = max r.maxgap (largestGap (r.prevPrimeLow :: l)) := by
  induction l generalizing r with
  | nil => simp [largestGap]
  | cons p l ih =>
      have hp := hl p List.mem_cons_self
      have hlow := report_prevPrimeLow (r := r) hgap hp
      have hlt := (List.pairwise_cons.mp hsorted).1 p List.mem_cons_self
      have hrest := (List.pairwise_cons.mp hsorted).2
      rw [List.foldl_cons, ih (by omega) (by rwa [hlow])
        fun q hq => hl q (List.mem_cons_of_mem p hq), hlow, report_maxgap hgap hprev hlt hp,
        largestGap, Nat.max_assoc]

theorem foldl_report_maxgap (hgap : o.flagMaxgap = true) (hprev : r.prevPrimeLow = 0)
    (hsorted : l.Pairwise (· < ·)) (hl : ∀ p ∈ l, 0 < p ∧ p < 2 ^ 64) (hr : r.maxgap = 0) :
    (l.foldl (report o) r).maxgap = largestGap l := by
  cases l with
  | nil => exact hr
  | cons p l =>
      have hp := hl p List.mem_cons_self
      have hlow := report_prevPrimeLow (r := r) hgap hp.2
      rw [List.foldl_cons, foldl_report_maxgap_next hgap (by omega) (by rwa [hlow])
        fun q hq => (hl q (List.mem_cons_of_mem p hq)).2, hlow, report_maxgap_first hgap hprev, hr,
        Nat.zero_max]

/-! ## The whole program -/

/-- The first odd number of the interval. -/
def startOdd (fr : ℤ) : ℕ := makeOdd (if fr < 3 then 3 else fr.toNat)

/-- The last odd number of the interval. -/
def stopOdd (upTo : ℤ) : ℕ := makeOdd (upTo - 1).toNat

/-- The largest number that the base of the sieve may have. -/
def limit (fr upTo : ℤ) : ℕ := sieveLim (startOdd fr) (stopOdd upTo)

/-- The numbers that are reported, in this order. -/
def reported (probab : ℕ → Bool) (fr upTo : ℤ) : List ℕ :=
  (if fr < 3 then [2] else []) ++
    (odds (startOdd fr) (stopOdd upTo)).filter
      (found (basePrimes (limit fr upTo)) probab ((limit fr upTo + 1) * (limit fr upTo + 1)))

theorem makeOdd_odd (n : ℕ) : makeOdd n % 2 = 1 := by
  rw [makeOdd]
  omega

theorem startOdd_odd (fr : ℤ) : startOdd fr % 2 = 1 := makeOdd_odd _

theorem stopOdd_odd (upTo : ℤ) : stopOdd upTo % 2 = 1 := makeOdd_odd _

/-- The limit is `SIEVE_LIMIT` at most, unless the interval ends before it starts. -/
theorem limit_le (hle : startOdd fr ≤ stopOdd upTo + 2) : limit fr upTo ≤ sieveLimit := by
  rw [limit, sieveLim]
  split_ifs with hsmall hnear
  · exact hsmall.le
  · simp only [sieveLimit] at hnear ⊢
    omega
  · exact le_rfl

/-- The part of `main` after the limit is known. -/
theorem search_eq : (do
    let primes ← makePrimelist (limit fr upTo)
    if est (limit fr upTo) < primes.length then throw .assertion
    return mainLoop probab o ((limit fr upTo + 1) * (limit fr upTo + 1)) (startOdd fr)
      (stopOdd upTo) primes s r : Except Fault Report) =
    (makePrimelist (limit fr upTo)).bind fun primes =>
      if est (limit fr upTo) < primes.length then .error .assertion
      else .ok (((odds (startOdd fr) (stopOdd upTo)).filter
        (found (basePrimes (limit fr upTo)) probab
          ((limit fr upTo + 1) * (limit fr upTo + 1)))).foldl (report o) r) := by
  cases hprimes : makePrimelist (limit fr upTo) with
  | error e => rfl
  | ok primes =>
      simp only [bind, Except.bind]
      split_ifs with hest
      · rfl
      · refine congrArg Except.ok ?_
        by_cases hnear : startOdd fr ≤ stopOdd upTo
        · have hlim : limit fr upTo ≤ sieveLimit := limit_le (by omega)
          simp only [sieveLimit] at hlim
          rw [makePrimelist_eq (by omega)] at hprimes
          split_ifs at hprimes
          obtain rfl := Except.ok.inj hprimes
          have hready : ∀ p ∈ (basePrimes (limit fr upTo)).map fun q => (⟨q, -1⟩ : Prime),
              Ready (startOdd fr) p := by
            intro p hp
            obtain ⟨q, -, rfl⟩ := List.mem_map.mp hp
            refine ⟨?_, fun hrem => ?_, fun hrem => ?_⟩ <;> simp only at * <;> omega
          have hbase := @base_basePrimes (limit fr upTo)
          exact mainLoop_eq (startOdd_odd fr) (stopOdd_odd upTo) (by simp [Function.comp_def])
            hbase hready
        · rw [mainLoop, if_neg hnear, odds_nil (by omega) (startOdd_odd fr) (stopOdd_odd upTo)]
          rfl

theorem main_eq : main probab est s o fr upTo =
    if upTo ≤ 0 then .error .sqrtOfNegative
    else (makePrimelist (limit fr upTo)).bind fun primes =>
      if est (limit fr upTo) < primes.length then .error .assertion
      else .ok ((reported probab fr upTo).foldl (report o) ⟨[], 0, 0, 0⟩) := by
  rw [reported]
  by_cases hfr : fr < 3
  · have hstart : startOdd fr = makeOdd 3 := by rw [startOdd, if_pos hfr]
    have hsearch := @search_eq probab est s o (report o ⟨[], 0, 0, 0⟩ 2) fr upTo
    simp only [main, if_pos hfr, List.singleton_append, List.foldl_cons]
    by_cases hto : upTo ≤ 0
    · simp only [if_pos hto]
      rfl
    · simp only [if_neg hto, ← hstart]
      exact hsearch
  · have hstart : startOdd fr = makeOdd fr.toNat := by rw [startOdd, if_neg hfr]
    have hsearch := @search_eq probab est s o ⟨[], 0, 0, 0⟩ fr upTo
    simp only [main, if_neg hfr, List.nil_append]
    by_cases hto : upTo ≤ 0
    · simp only [if_pos hto]
      rfl
    · simp only [if_neg hto, ← hstart]
      exact hsearch

/-- With a limit up to `SIEVE_LIMIT`. -/
theorem main_eq_of_limit (hlim : limit fr upTo ≤ sieveLimit) : main probab est s o fr upTo =
    if upTo ≤ 0 then .error .sqrtOfNegative
    else if limit fr upTo < 2 then .error .noPrimes
    else if est (limit fr upTo) < (basePrimes (limit fr upTo)).length then .error .assertion
    else .ok ((reported probab fr upTo).foldl (report o) ⟨[], 0, 0, 0⟩) := by
  simp only [sieveLimit] at hlim
  rw [main_eq, makePrimelist_eq (by omega)]
  by_cases hsmall : limit fr upTo < 2
  · rw [if_pos hsmall, if_pos hsmall]
    rfl
  · rw [if_neg hsmall, if_neg hsmall]
    simp only [Except.bind, List.length_map]

/-! ## The members of the interval -/

theorem mem_odds {fr2 to2 : ℕ} (hfr : fr2 % 2 = 1) (hto : to2 % 2 = 1) :
    m ∈ odds fr2 to2 ↔ m % 2 = 1 ∧ fr2 ≤ m ∧ m ≤ to2 := by
  simp only [odds, List.mem_map, List.mem_range]
  refine ⟨?_, fun h => ⟨(m - fr2) / 2, by omega, by omega⟩⟩
  rintro ⟨i, hi, rfl⟩
  omega

theorem odds_sorted {fr2 to2 : ℕ} : (odds fr2 to2).Pairwise (· < ·) := by
  apply List.Pairwise.map _ (fun a b hab => ?_) List.pairwise_lt_range
  omega

theorem mem_interval (hto : 0 < upTo) (hodd : m % 2 = 1) :
    startOdd fr ≤ m ∧ m ≤ stopOdd upTo ↔ 3 ≤ m ∧ fr ≤ m ∧ m ≤ upTo := by
  rw [startOdd, stopOdd, makeOdd, makeOdd]
  split_ifs <;> omega

theorem mem_reported (hto : 0 < upTo) : m ∈ reported probab fr upTo ↔
    (fr < 3 ∧ m = 2) ∨ (m % 2 = 1 ∧ 3 ≤ m ∧ fr ≤ m ∧ m ≤ upTo ∧
      found (basePrimes (limit fr upTo)) probab ((limit fr upTo + 1) * (limit fr upTo + 1)) m) := by
  have htwo : m ∈ (if fr < 3 then [2] else []) ↔ fr < 3 ∧ m = 2 := by
    split_ifs with hfr <;> simp [hfr]
  rw [reported, List.mem_append, htwo, List.mem_filter,
    mem_odds (startOdd_odd fr) (stopOdd_odd upTo)]
  refine or_congr_right ⟨fun ⟨⟨hodd, hin⟩, hfound⟩ => ?_,
    fun ⟨hodd, hthree, hfr, hle, hfound⟩ => ?_⟩
  · obtain ⟨hthree, hfr, hle⟩ := (mem_interval hto hodd).mp hin
    exact ⟨hodd, hthree, hfr, hle, hfound⟩
  · exact ⟨⟨hodd, (mem_interval hto hodd).mpr ⟨hthree, hfr, hle⟩⟩, hfound⟩

theorem reported_sorted : (reported probab fr upTo).Pairwise (· < ·) := by
  rw [reported, List.pairwise_append]
  refine ⟨by split_ifs <;> simp, odds_sorted.filter _, fun a ha b hb => ?_⟩
  have hb := (mem_odds (startOdd_odd fr) (stopOdd_odd upTo)).mp (List.mem_filter.mp hb).1
  have hstart : 3 ≤ startOdd fr := by
    rw [startOdd, makeOdd]
    split_ifs <;> omega
  have ha : a = 2 := by
    split_ifs at ha <;> simp_all
  omega

theorem odd_or_two (hp : p.Prime) : p = 2 ∨ p % 2 = 1 ∧ 3 ≤ p := by
  have htwo := hp.two_le
  rcases hp.eq_two_or_odd with heq | hodd
  · exact .inl heq
  · exact .inr ⟨hodd, by omega⟩

/-- No prime is missed, as long as the test of `mpz_probab_prime_p` passes all primes. -/
theorem prime_mem_reported (hto : 5 ≤ upTo) (hp : p.Prime) (hfr : fr ≤ p) (hle : p ≤ upTo)
    (htest : p < (limit fr upTo + 1) * (limit fr upTo + 1) ∨ probab p = true) :
    p ∈ reported probab fr upTo := by
  rw [mem_reported (by omega)]
  rcases odd_or_two hp with rfl | ⟨hodd, hthree⟩
  · exact .inl ⟨by omega, rfl⟩
  · refine .inr ⟨hodd, hthree, hfr, hle, ?_⟩
    have hsurvives : Survives (basePrimes (limit fr upTo)) p :=
      survives_of_prime (fun q hq => by have := base_basePrimes.three_le q hq; omega) hp
    simpa [found, hsurvives] using htest

/-- What is reported is prime below the square of the limit, and above it has passed the test and
has no prime factor up to the limit. -/
theorem prime_of_mem_reported (hto : 5 ≤ upTo) (hm : m ∈ reported probab fr upTo) :
    (fr ≤ m ∧ m ≤ upTo) ∧ (m.Prime ∨ (limit fr upTo + 1) * (limit fr upTo + 1) ≤ m ∧
      probab m = true ∧ ∀ p, p.Prime → p ≤ limit fr upTo → ¬ p ∣ m) := by
  have hbase := @base_basePrimes (limit fr upTo)
  rcases (mem_reported (by omega)).mp hm with ⟨hfr, rfl⟩ | ⟨hodd, hthree, hfr, hle, hfound⟩
  · exact ⟨by omega, .inl Nat.prime_two⟩
  · simp only [found, Bool.and_eq_true, Bool.or_eq_true, decide_eq_true_eq] at hfound
    refine ⟨⟨hfr, hle⟩, ?_⟩
    by_cases hlt : m < (limit fr upTo + 1) * (limit fr upTo + 1)
    · exact .inl ((hbase.survives_iff_prime hodd (by omega) hlt).mp hfound.1)
    · refine .inr ⟨by omega, hfound.2.resolve_left hlt, fun p hp hplt hdvd => ?_⟩
      rcases odd_or_two hp with rfl | ⟨hpodd, -⟩
      · omega
      · exact hbase.not_dvd_of_survives hfound.1 (by omega) hp hpodd hplt hdvd

/-- Below the square of `SIEVE_LIMIT` the base holds all primes that are needed. -/
theorem limit_eq_sqrt (hmax : upTo < 10 ^ 14) : limit fr upTo = Nat.sqrt (stopOdd upTo) := by
  have hstop : stopOdd upTo < sieveLimit * sieveLimit := by
    rw [stopOdd, makeOdd, sieveLimit]
    omega
  rw [limit, sieveLim, if_pos (Nat.sqrt_lt.mpr hstop)]

/-- Beyond it a short interval makes the limit. -/
theorem limit_eq_sub (hlarge : sieveLimit * sieveLimit ≤ stopOdd upTo)
    (hnear : startOdd fr ≤ stopOdd upTo ∧ stopOdd upTo < startOdd fr + sieveLimit) :
    limit fr upTo = stopOdd upTo - startOdd fr := by
  have hbound : sieveLimit < 2 ^ 64 := by decide
  rw [limit, sieveLim, if_neg (by rw [Nat.sqrt_lt]; omega), if_pos (by omega)]
  omega

/-- The limit leaves no odd number for the base when the interval ends below five or holds one odd
number beyond the square of `SIEVE_LIMIT`. -/
theorem limit_lt_two_iff (hto : 0 < upTo) (hle : fr ≤ upTo) : limit fr upTo < 2 ↔
    upTo < 5 ∨ (10 ^ 14 ≤ stopOdd upTo ∧ stopOdd upTo = startOdd fr) := by
  have hstart := startOdd_odd fr
  have hstop := stopOdd_odd upTo
  have hbounds : startOdd fr ≤ stopOdd upTo + 2 ∧ (upTo < 5 ↔ stopOdd upTo < 2 * 2) := by
    rw [startOdd, stopOdd, makeOdd, makeOdd]
    split_ifs <;> omega
  rw [limit, sieveLim]
  split_ifs with hsmall hnear
  · have hlt := Nat.sqrt_lt.mp hsmall
    rw [Nat.sqrt_lt]
    simp only [sieveLimit] at hlt
    omega
  · have hlt := Nat.sqrt_lt.not.mp hsmall
    simp only [sieveLimit] at hlt hnear
    omega
  · have hlt := Nat.sqrt_lt.not.mp hsmall
    simp only [sieveLimit] at hlt hnear ⊢
    omega

theorem five_le_of_limit (hto : 0 < upTo) (hlim : ¬ limit fr upTo < 2) : 5 ≤ upTo := by
  by_contra hlt
  have hstop : stopOdd upTo < 2 * 2 := by
    rw [stopOdd, makeOdd]
    omega
  rw [limit_eq_sqrt (by omega), Nat.sqrt_lt] at hlim
  exact hlim hstop

/-- The reports of a list that is in order. -/
structure Reports (o : Options) (l : List ℕ) (r : Report) : Prop where
  printed : r.printed = if o.flagPrint ≠ 0 then l else []
  total : r.totalPrimes = l.length % 2 ^ 64
  maxgap : o.flagMaxgap = true → (∀ p ∈ l, 0 < p ∧ p < 2 ^ 64) → r.maxgap = largestGap l

theorem reports_foldl (hsorted : l.Pairwise (· < ·)) :
    Reports o l (l.foldl (report o) ⟨[], 0, 0, 0⟩) where
  printed := by rw [foldl_report_printed, List.nil_append]
  total := by rw [foldl_report_totalPrimes (by decide), Nat.zero_add]
  maxgap hgap hl := foldl_report_maxgap hgap rfl hsorted hl rfl

theorem length_le_of_sorted {k n : ℕ} (hsorted : l.Pairwise (· < ·))
    (hl : ∀ m ∈ l, k ≤ m ∧ m < n) : l.length ≤ n - k := by
  induction l generalizing k with
  | nil => exact Nat.zero_le _
  | cons m l ih =>
      rw [List.pairwise_cons] at hsorted
      have hm := hl m List.mem_cons_self
      have hrest := @ih (m + 1) hsorted.2 fun m' hm' =>
        ⟨hsorted.1 m' hm', (hl m' (List.mem_cons_of_mem m hm')).2⟩
      rw [List.length_cons]
      omega

/-- The program reports the primes of an interval below the square of `SIEVE_LIMIT` in order, and
with them their number and their largest gap, whatever `mpz_probab_prime_p` says and whatever the
array held before. -/
theorem primes_of_interval (probab : ℕ → Bool) (est : ℕ → ℕ) (s : Sieve) (o : Options)
    (fr upTo : ℤ) (hmin : 5 ≤ upTo) (hmax : upTo < 10 ^ 14)
    (hest : (basePrimes (limit fr upTo)).length ≤ est (limit fr upTo)) :
    ∃ l r, main probab est s o fr upTo = .ok r ∧ l.Pairwise (· < ·) ∧
      (∀ m : ℕ, m ∈ l ↔ fr ≤ m ∧ m ≤ upTo ∧ m.Prime) ∧ r.totalPrimes = l.length ∧
      r.printed = (if o.flagPrint ≠ 0 then l else []) ∧
      (o.flagMaxgap = true → r.maxgap = largestGap l) := by
  have hlimit : limit fr upTo = Nat.sqrt (stopOdd upTo) := limit_eq_sqrt hmax
  have hlim : limit fr upTo ≤ sieveLimit := by
    rw [hlimit]
    apply le_of_lt
    rw [Nat.sqrt_lt, stopOdd, makeOdd, sieveLimit]
    omega
  have htwo : ¬ limit fr upTo < 2 := by
    rw [hlimit, Nat.sqrt_lt, stopOdd, makeOdd]
    omega
  have hbelow (m : ℕ) (hm : m ≤ upTo) (hodd : m % 2 = 1) :
      m < (limit fr upTo + 1) * (limit fr upTo + 1) := by
    have hstop : m ≤ stopOdd upTo := by
      rw [stopOdd, makeOdd]
      omega
    rw [hlimit]
    exact hstop.trans_lt (Nat.lt_succ_sqrt _)
  have hmem (m : ℕ) : m ∈ reported probab fr upTo ↔ fr ≤ m ∧ m ≤ upTo ∧ m.Prime := by
    refine ⟨fun hm => ?_, fun ⟨hfr, hle, hp⟩ => ?_⟩
    · obtain ⟨⟨hfr, hle⟩, hp | ⟨hge, -, hfree⟩⟩ := prime_of_mem_reported hmin hm
      · exact ⟨hfr, hle, hp⟩
      · rcases Nat.mod_two_eq_zero_or_one m with heven | hodd
        · exact absurd (Nat.dvd_of_mod_eq_zero heven) (hfree 2 Nat.prime_two (by omega))
        · exact absurd (hbelow m hle hodd) (by omega)
    · rcases odd_or_two hp with rfl | ⟨hodd, -⟩
      · exact (mem_reported (by omega)).mpr (.inl ⟨by omega, rfl⟩)
      · exact prime_mem_reported hmin hp hfr hle (.inl (hbelow m hle hodd))
  have hreports : Reports o (reported probab fr upTo)
      ((reported probab fr upTo).foldl (report o) ⟨[], 0, 0, 0⟩) := reports_foldl reported_sorted
  refine ⟨reported probab fr upTo, _, ?_, reported_sorted, hmem, ?_, hreports.printed,
    fun hgap => hreports.maxgap hgap fun p hp => ?_⟩
  · rw [main_eq_of_limit hlim, if_neg (by omega), if_neg htwo, if_neg (by omega)]
  · have hlength : (reported probab fr upTo).length ≤ (upTo + 1).toNat - 0 := by
      refine length_le_of_sorted reported_sorted fun m hm => ?_
      have hle := ((hmem m).mp hm).2.1
      omega
    exact hreports.total.trans (Nat.mod_eq_of_lt (by omega))
  · have hp := (hmem p).mp hp
    have hpos := hp.2.2.pos
    omega

/-- `primes -c -g 90 100`, where the estimate for the primes up to nine is fourteen. -/
theorem primes_of_interval_ninety :
    ∃ l r, main (fun m => decide m.Prime) (fun _ => 14) (fun _ => true) ⟨true, true, false⟩
        90 100 = .ok r ∧ l.Pairwise (· < ·) ∧
      (∀ m : ℕ, m ∈ l ↔ (90 : ℤ) ≤ m ∧ (m : ℤ) ≤ 100 ∧ m.Prime) ∧
      r.totalPrimes = l.length ∧ r.printed = [] ∧ r.maxgap = largestGap l := by
  have hlimit : limit 90 100 < 10 := by
    rw [limit_eq_sqrt (by decide), Nat.sqrt_lt]
    decide
  have hlength := @basePrimes_length_le (limit 90 100)
  obtain ⟨l, r, hrun, hsorted, hmem, htotal, hprinted, hgap⟩ := primes_of_interval
    (fun m => decide m.Prime) (fun _ => 14) (fun _ => true) ⟨true, true, false⟩ 90 100
    (by decide) (by decide) (by omega)
  exact ⟨l, r, hrun, hsorted, hmem, htotal, hprinted, hgap rfl⟩

/-- Of any interval a run that does not fail reports all primes, and of other numbers only those
beyond the square of the limit that pass the test and have no prime factor up to the limit. -/
theorem primes_found (hprob : ∀ p, p.Prime → probab p = true)
    (hrun : main probab est s o fr upTo = .ok r) :
    ∃ l, l.Pairwise (· < ·) ∧ Reports o l r ∧
      (∀ p : ℕ, p.Prime → fr ≤ p → p ≤ upTo → p ∈ l) ∧
      ∀ m ∈ l, (fr ≤ m ∧ m ≤ upTo) ∧
        (m.Prime ∨ (limit fr upTo + 1) * (limit fr upTo + 1) ≤ m ∧ probab m = true ∧
          ∀ p, p.Prime → p ≤ limit fr upTo → ¬ p ∣ m) := by
  rw [main_eq] at hrun
  split_ifs at hrun with hto
  cases hprimes : makePrimelist (limit fr upTo) with
  | error e =>
      rw [hprimes] at hrun
      cases hrun
  | ok primes =>
      rw [hprimes, Except.bind] at hrun
      split_ifs at hrun with hest
      obtain rfl := Except.ok.inj hrun
      have hlim : ¬ limit fr upTo < 2 := by
        intro hsmall
        rw [makePrimelist_eq (by omega), if_pos hsmall] at hprimes
        cases hprimes
      have hmin : 5 ≤ upTo := five_le_of_limit (by omega) hlim
      exact ⟨reported probab fr upTo, reported_sorted, reports_foldl reported_sorted,
        fun p hp hfr hle => prime_mem_reported hmin hp hfr hle (.inr (hprob p hp)),
        fun m hm => prime_of_mem_reported hmin hm⟩

/-- Beyond `10 ^ 14` with a base up to eight, and an exact test. -/
theorem primes_found_eight :
    ∃ l r, main (fun m => decide m.Prime) (fun _ => 14) (fun _ => true)
        ⟨true, false, false⟩ (10 ^ 14 + 1) (10 ^ 14 + 9) = .ok r ∧
      Reports ⟨true, false, false⟩ l r ∧
      ∀ p : ℕ, p.Prime → (10 ^ 14 + 1 : ℤ) ≤ p → (p : ℤ) ≤ 10 ^ 14 + 9 → p ∈ l := by
  have hlimit : limit (10 ^ 14 + 1) (10 ^ 14 + 9) = 8 := limit_eq_sub (by decide) (by decide)
  have hlength := @basePrimes_length_le (limit (10 ^ 14 + 1) (10 ^ 14 + 9))
  rw [hlimit] at hlength
  have hrun := @main_eq_of_limit (fun m => decide m.Prime) (fun _ => 14) (fun _ => true)
    ⟨true, false, false⟩ (10 ^ 14 + 1) (10 ^ 14 + 9) (hlimit.trans_le (by decide))
  rw [if_neg (by decide), hlimit, if_neg (by decide), if_neg (by omega)] at hrun
  obtain ⟨l, -, hreports, hall, -⟩ := primes_found (fun _ hp => by simpa using hp) hrun
  exact ⟨l, _, hrun, hreports, hall⟩

/-- The program fails for intervals that end below five, for one odd number beyond the square of
`SIEVE_LIMIT`, and when the estimate is too small, and for no others. -/
theorem main_succeeds_iff (probab : ℕ → Bool) (est : ℕ → ℕ) (s : Sieve) (o : Options)
    (fr upTo : ℤ) (hle : fr ≤ upTo) : (∃ r, main probab est s o fr upTo = .ok r) ↔
      5 ≤ upTo ∧ ¬ (10 ^ 14 ≤ stopOdd upTo ∧ stopOdd upTo = startOdd fr) ∧
        (basePrimes (limit fr upTo)).length ≤ est (limit fr upTo) := by
  have hlimit : limit fr upTo ≤ sieveLimit := by
    apply limit_le
    rw [startOdd, stopOdd, makeOdd, makeOdd]
    split_ifs <;> omega
  rw [main_eq_of_limit hlimit]
  by_cases hto : upTo ≤ 0
  · rw [if_pos hto]
    refine ⟨fun ⟨_, hr⟩ => (by cases hr), fun ⟨hmin, _⟩ => ?_⟩
    omega
  · have hlim := @limit_lt_two_iff fr upTo (by omega) hle
    rw [if_neg hto]
    split_ifs with hsmall hest
    · refine ⟨fun ⟨_, hr⟩ => (by cases hr), fun ⟨hmin, hone, _⟩ => ?_⟩
      rcases hlim.mp hsmall with hlt | hodd
      · omega
      · exact absurd hodd hone
    · refine ⟨fun ⟨_, hr⟩ => (by cases hr), fun ⟨_, _, hfits⟩ => ?_⟩
      omega
    · have hlarge := hlim.not.mp hsmall
      exact ⟨fun _ => ⟨by omega, fun hodd => hlarge (.inr hodd), by omega⟩, fun _ => ⟨_, rfl⟩⟩

/-- `primes 100000000000001 100000000000001` fails. -/
theorem main_succeeds_iff_one : ¬ ∃ r, main (fun m => decide m.Prime) (fun _ => 10) (fun _ => true)
    ⟨false, false, false⟩ (10 ^ 14 + 1) (10 ^ 14 + 1) = .ok r := by
  rw [main_succeeds_iff _ _ _ _ _ _ (le_refl _)]
  exact fun h => h.2.1 ⟨by decide, by decide⟩

end AutotestClient.Primes
