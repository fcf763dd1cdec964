import AutotestClient.Verification.Primes.Primelist

/-! # The regions that `sieve_region` sieves -/

namespace AutotestClient.Primes

open Shared.Sieve

variable {s : Sieve} {fr ssize q i j : ℕ} {k : ℤ} {p : Prime} {ps : List Prime}

/-! ## Clearing from the end of the array -/

theorem clearEnd_apply (hq : 0 < q) (hk : -(ssize : ℤ) ≤ k) :
    (clearEnd s ssize q k).1 j = true ↔ s j = true ∧
      ¬ ((ssize + k).toNat ≤ j ∧ j < ssize ∧ q ∣ j - (ssize + k).toNat) := by
  fun_induction clearEnd s ssize q k with
  | case1 s k hlt ih =>
      have hnext : (ssize + (k + q)).toNat = (ssize + k).toNat + q := by omega
      rw [ih (by omega), hnext]
      by_cases hj : j = (ssize + k).toNat
      · have hhere : (ssize + k).toNat ≤ j ∧ j < ssize ∧ q ∣ j - (ssize + k).toNat :=
          ⟨hj.ge, by omega, by simp [hj]⟩
        simp [hj, Function.update_self]
        omega
      · have hprog := progression_succ hq hj
        rw [Function.update_of_ne hj]
        grind
  | case2 s k hstop =>
      have hend : ¬ ((ssize + k).toNat ≤ j ∧ j < ssize) := by omega
      grind

theorem clearEnd_rem (hq : 0 < q) :
    0 ≤ (clearEnd s ssize q k).2 ∧ (q : ℤ) ∣ (clearEnd s ssize q k).2 - k ∧
      ((clearEnd s ssize q k).2 < q ∨ (clearEnd s ssize q k).2 = k) := by
  fun_induction clearEnd s ssize q k with
  | case1 s k hlt ih =>
      obtain ⟨hpos, hdvd, hnear⟩ := ih
      refine ⟨hpos, ?_, .inl (by omega)⟩
      have hsplit := Int.dvd_add hdvd (Int.dvd_refl q)
      rwa [← Int.sub_sub, Int.sub_add_cancel] at hsplit
  | case2 s k hstop => exact ⟨by omega, by simp, .inr rfl⟩

/-! ## Where a prime begins -/

/-- The state of a prime in front of the region from `fr` on: not used yet, or with its next
multiple. -/
structure Ready (fr : ℕ) (p : Prime) : Prop where
  rem_lt : p.rem < p.prime
  sq_le : 0 ≤ p.rem → p.prime * p.prime ≤ fr
  dvd : 0 ≤ p.rem → p.prime ∣ fr + 2 * p.rem.toNat

/-- Entry `i` of the region is the first one that `q` strikes out, here or in a later region. -/
structure First (fr ssize q i : ℕ) : Prop where
  dvd : q ∣ fr + 2 * i
  sq_le : q * q ≤ fr + 2 * i
  reached : q * q ≤ fr + 2 * ssize
  near : i < q ∨ i ≤ ssize
  first : ∀ j, q ∣ fr + 2 * j → q * q ≤ fr + 2 * j → i ≤ j

theorem First.of_lt (hodd : q % 2 = 1) (hdvd : q ∣ fr + 2 * i) (hsq : q * q ≤ fr) (hlt : i < q) :
    First fr ssize q i where
  dvd := hdvd
  sq_le := by omega
  reached := by omega
  near := .inl hlt
  first j hj _ := by
    by_contra hji
    have hstep := (dvd_entry_iff hodd hj (by omega)).mp hdvd
    have hle := Nat.le_of_dvd (by omega) hstep
    omega

theorem start2_eq_none (h : start2 fr ssize p = none) :
    p.rem < 0 ∧ fr + 2 * ssize < p.prime * p.prime := by
  rw [start2] at h
  split at h
  · cases h
  · split at h
    · split at h
      · omega
      · cases h
    · cases h

theorem dvd_next (hq : 0 < q) : q ∣ fr + (q - fr % q) % q := by
  have hlt := Nat.mod_lt fr hq
  rcases Nat.eq_zero_or_pos (fr % q) with hzero | hpos
  · rw [hzero, Nat.sub_zero, Nat.mod_self]
    exact Nat.dvd_of_mod_eq_zero hzero
  · have hdiv := Nat.div_add_mod fr q
    rw [Nat.mod_eq_of_lt (by omega)]
    exact ⟨fr / q + 1, by rw [Nat.mul_add, Nat.mul_one]; omega⟩

theorem start2_eq_some (hfr : fr % 2 = 1) (hodd : p.prime % 2 = 1) (hp : Ready fr p)
    (h : start2 fr ssize p = some k) : ∃ i : ℕ, k = i ∧ First fr ssize p.prime i := by
  rw [start2] at h
  split at h
  next hrem =>
    obtain rfl := Option.some.inj h
    have hlt := hp.rem_lt
    exact ⟨p.rem.toNat, by omega, First.of_lt hodd (hp.dvd hrem) (hp.sq_le hrem) (by omega)⟩
  next =>
    split at h
    next hle =>
      split at h
      · cases h
      next hnear =>
        have hsq := odd_sq hodd
        have hsplit : fr + 2 * ((p.prime * p.prime - fr) / 2) = p.prime * p.prime := by omega
        refine ⟨_, (Option.some.inj h).symm, ?_, hsplit.ge, by omega, .inr (by omega), ?_⟩
        · rw [hsplit]
          exact Nat.dvd_mul_right _ _
        · intro j _ hj
          omega
    next hlt =>
      refine ⟨_, (Option.some.inj h).symm, First.of_lt hodd ?_ (by omega) ?_⟩
      · have hnext := @dvd_next fr p.prime (by omega)
        split_ifs with hstart
        · have htwo : fr + 2 * (((p.prime - fr % p.prime) % p.prime + p.prime) / 2) =
              fr + (p.prime - fr % p.prime) % p.prime + p.prime := by omega
          rw [htwo]
          exact Nat.dvd_add hnext (Nat.dvd_refl _)
        · have htwo : 2 * ((p.prime - fr % p.prime) % p.prime / 2) =
              (p.prime - fr % p.prime) % p.prime := by omega
          rwa [htwo]
      · have hmod := Nat.mod_lt (p.prime - fr % p.prime) (by omega : 0 < p.prime)
        split_ifs <;> omega

/-! ## One prime in one region -/

theorem ready_clearEnd (hq : 0 < q) (hi : First fr ssize q i) :
    Ready (fr + 2 * ssize) ⟨q, (clearEnd s ssize q (i - ssize)).2⟩ := by
  obtain ⟨hpos, hdvd, hnear⟩ := @clearEnd_rem s ssize q (i - ssize) hq
  refine ⟨?_, fun _ => hi.reached, fun _ => ?_⟩
  · have hfirst := hi.near
    rcases hnear with hlt | heq
    · exact hlt
    · simp only [heq]
      omega
  · have hsplit : ((fr + 2 * ssize + 2 * (clearEnd s ssize q (i - ssize)).2.toNat : ℕ) : ℤ) =
        ((fr + 2 * i : ℕ) : ℤ) + 2 * ((clearEnd s ssize q (i - ssize)).2 - (i - ssize)) := by
      omega
    apply Int.natCast_dvd_natCast.mp
    rw [hsplit]
    exact Int.dvd_add (Int.natCast_dvd_natCast.mpr hi.dvd) (Int.dvd_mul_of_dvd_right hdvd)

theorem clearEnd_first (hodd : q % 2 = 1) (hi : First fr ssize q i) (hj : j < ssize) :
    (clearEnd s ssize q (i - ssize)).1 j = true ↔
      s j = true ∧ (q ∣ fr + 2 * j → fr + 2 * j < q * q) := by
  have hentry : (ssize + ((i : ℤ) - ssize)).toNat = i := by omega
  rw [clearEnd_apply (by omega) (by omega), hentry]
  refine and_congr_right fun _ => ⟨fun hnot hdvd => ?_, ?_⟩
  · by_contra hge
    have hle := hi.first j hdvd (by omega)
    exact hnot ⟨hle, hj, (dvd_entry_iff hodd hi.dvd hle).mp hdvd⟩
  · rintro hlt ⟨hle, -, hdvd⟩
    have hsmall := hlt ((dvd_entry_iff hodd hi.dvd hle).mpr hdvd)
    have hsq := hi.sq_le
    omega

/-! ## All primes in one region -/

/-- What the loop over the primes makes of them and of the array. -/
structure RegionDone (fr ssize : ℕ) (ps : List Prime) (s : Sieve) (result : List Prime × Sieve) :
    Prop where
  primes : result.1.map Prime.prime = ps.map Prime.prime
  ready : ∀ p ∈ result.1, Ready (fr + 2 * ssize) p
  left : ∀ j < ssize, result.2 j = true ↔
    s j = true ∧ Survives (ps.map Prime.prime) (fr + 2 * j)

theorem sieveLoop_none (h : start2 fr ssize p = none) :
    sieveLoop fr ssize (p :: ps) s = (p :: ps, s) := by
  rw [sieveLoop, h]

theorem sieveLoop_some (h : start2 fr ssize p = some k) :
    sieveLoop fr ssize (p :: ps) s =
      (⟨p.prime, (clearEnd s ssize p.prime (k - ssize)).2⟩ ::
        (sieveLoop fr ssize ps (clearEnd s ssize p.prime (k - ssize)).1).1,
      (sieveLoop fr ssize ps (clearEnd s ssize p.prime (k - ssize)).1).2) := by
  rw [sieveLoop, h]

/-- After the `break` no prime reaches the region, and none of them was used before. -/
theorem regionDone_of_break (hready : ∀ p ∈ ps, Ready fr p)
    (hfar : ∀ p ∈ ps, fr + 2 * ssize < p.prime * p.prime) : RegionDone fr ssize ps s (ps, s) where
  primes := rfl
  ready p hp := by
    have hsq := (hready p hp).sq_le
    have hlt := hfar p hp
    exact ⟨(hready p hp).rem_lt, fun hrem => by have := hsq hrem; omega,
      fun hrem => by have := hsq hrem; omega⟩
  left j hj := by
    refine (and_iff_left (survives_of_lt fun q hq => ?_)).symm
    obtain ⟨p, hp, rfl⟩ := List.mem_map.mp hq
    have hlt := hfar p hp
    omega

theorem sieveLoop_done (hfr : fr % 2 = 1) (hodd : ∀ p ∈ ps, p.prime % 2 = 1)
    (hsorted : (ps.map Prime.prime).Pairwise (· < ·)) (hready : ∀ p ∈ ps, Ready fr p) :
    RegionDone fr ssize ps s (sieveLoop fr ssize ps s) := by
  induction ps generalizing s with
  | nil => exact ⟨rfl, by simp [sieveLoop], by simp [sieveLoop]⟩
  | cons p ps ih =>
      rw [List.map_cons, List.pairwise_cons] at hsorted
      have hp := hready p List.mem_cons_self
      have hpodd := hodd p List.mem_cons_self
      cases h : start2 fr ssize p with
      | none =>
          rw [sieveLoop_none h]
          refine regionDone_of_break hready fun p' hp' => ?_
          have hfar := (start2_eq_none h).2
          rcases List.mem_cons.mp hp' with rfl | hp'
          · exact hfar
          · have hle := (hsorted.1 p'.prime (List.mem_map_of_mem hp')).le
            exact hfar.trans_le (Nat.mul_le_mul hle hle)
      | some k =>
          obtain ⟨i, rfl, hi⟩ := start2_eq_some hfr hpodd hp h
          have hrest := @ih (clearEnd s ssize p.prime (i - ssize)).1
            (fun p' hp' => hodd p' (List.mem_cons_of_mem p hp')) hsorted.2
            (fun p' hp' => hready p' (List.mem_cons_of_mem p hp'))
          rw [sieveLoop_some h]
          refine ⟨?_, ?_, fun j hj => ?_⟩
          · rw [List.map_cons, List.map_cons, hrest.primes]
          · intro p' hp'
            rcases List.mem_cons.mp hp' with rfl | hp'
            · exact ready_clearEnd (by omega) hi
            · exact hrest.ready p' hp'
          · rw [hrest.left j hj, clearEnd_first hpodd hi hj, List.map_cons, survives_cons,
              and_assoc]

end AutotestClient.Primes
