import AutotestClient.Verification.Primes.Regions

/-! # What `find_primes` finds in the regions -/

namespace AutotestClient.Primes

open Shared.Sieve

variable {α : Type*} {visit : α → ℕ → α} {s : Sieve} {a : α} {fr fr2 to2 ssize : ℕ}
  {ps : List Prime} {base : List ℕ} {probab : ℕ → Bool} {o : Options} {r : Report} {lim : ℕ}

/-! ## The search of a region, word by word -/

/-- The entries that `find_primes` visits. -/
def visited (s : Sieve) (ssize i : ℕ) : Bool := s i && decide (i < ssize)

theorem filter_visited_nil {l : List ℕ} (h : ∀ i ∈ l, ssize ≤ i) :
    l.filter (visited s ssize) = [] := by
  refine List.filter_eq_nil_iff.mpr fun i hi => ?_
  have hle := h i hi
  simp [visited]
  omega

theorem findWord_fst {l : List ℕ} (hsorted : l.Pairwise (· < ·)) :
    (findWord visit s ssize l a).1 = (l.filter (visited s ssize)).foldl visit a := by
  induction l generalizing a with
  | nil => rfl
  | cons i rest ih =>
      rw [List.pairwise_cons] at hsorted
      rw [findWord]
      split_ifs with hset hend
      · rw [filter_visited_nil fun i' hi' => ?_, List.foldl_nil]
        rcases List.mem_cons.mp hi' with rfl | hi'
        · exact hend
        · exact hend.trans (hsorted.1 i' hi').le
      · rw [ih hsorted.2, List.filter_cons_of_pos (by simp [visited, hset]; omega),
          List.foldl_cons]
      · rw [ih hsorted.2, List.filter_cons_of_neg (by simp [visited, hset])]

theorem findWord_snd {l : List ℕ} (h : (findWord visit s ssize l a).2 = true) :
    ∃ i ∈ l, ssize ≤ i := by
  induction l generalizing a with
  | nil => cases h
  | cons i rest ih =>
      rw [findWord] at h
      split_ifs at h with hset hend
      · exact ⟨i, List.mem_cons_self, hend⟩
      · obtain ⟨i', hi', hle⟩ := ih h
        exact ⟨i', List.mem_cons_of_mem i hi', hle⟩
      · obtain ⟨i', hi', hle⟩ := ih h
        exact ⟨i', List.mem_cons_of_mem i hi', hle⟩

def wordEntries (j : ℕ) : List ℕ := (List.range 8).map (j * 8 + ·)

theorem mem_wordEntries {i j : ℕ} : i ∈ wordEntries j ↔ j * 8 ≤ i ∧ i < j * 8 + 8 := by
  simp only [wordEntries, List.mem_map, List.mem_range]
  refine ⟨?_, fun h => ⟨i - j * 8, by omega, by omega⟩⟩
  rintro ⟨d, hd, rfl⟩
  omega

theorem wordEntries_sorted (j : ℕ) : (wordEntries j).Pairwise (· < ·) := by
  apply List.Pairwise.map _ (fun a b hab => ?_) List.pairwise_lt_range
  omega

theorem findWords_cons (j : ℕ) (rest : List ℕ) : findWords visit s ssize (j :: rest) a =
    if (wordEntries j).all (!s ·) then findWords visit s ssize rest a
    else if (findWord visit s ssize (wordEntries j) a).2 then
      (findWord visit s ssize (wordEntries j) a).1
    else findWords visit s ssize rest (findWord visit s ssize (wordEntries j) a).1 := by
  rw [findWords, wordEntries]
  by_cases hzero : ((List.range 8).map (j * 8 + ·)).all (!s ·) = true
  · rw [if_pos hzero, if_pos hzero]
  · rw [if_neg hzero, if_neg hzero]
    cases findWord visit s ssize ((List.range 8).map (j * 8 + ·)) a with
    | mk a' out => cases out <;> rfl

/-- Neither the words that are `0` nor the `goto` make a difference. -/
theorem findWords_eq {js : List ℕ} (hsorted : js.Pairwise (· < ·)) :
    findWords visit s ssize js a =
      ((js.flatMap wordEntries).filter (visited s ssize)).foldl visit a := by
  induction js generalizing a with
  | nil => rfl
  | cons j rest ih =>
      rw [List.pairwise_cons] at hsorted
      rw [findWords_cons, List.flatMap_cons, List.filter_append, List.foldl_append]
      split_ifs with hzero hout
      · have hnil : (wordEntries j).filter (visited s ssize) = [] := by
          refine List.filter_eq_nil_iff.mpr fun i hi => ?_
          have hunset := List.all_eq_true.mp hzero i hi
          simp_all [visited]
        rw [hnil, List.foldl_nil, ih hsorted.2]
      · obtain ⟨i, hi, hle⟩ := findWord_snd hout
        have hnil : (rest.flatMap wordEntries).filter (visited s ssize) = [] := by
          refine filter_visited_nil fun i' hi' => ?_
          obtain ⟨j', hj', hi'⟩ := List.mem_flatMap.mp hi'
          have hlt := hsorted.1 j' hj'
          rw [mem_wordEntries] at hi hi'
          omega
        rw [hnil, List.foldl_nil, findWord_fst (wordEntries_sorted j)]
      · rw [← findWord_fst (wordEntries_sorted j), ih hsorted.2]

theorem flatMap_wordEntries (n : ℕ) : (List.range n).flatMap wordEntries = List.range (n * 8) := by
  induction n with
  | zero => rfl
  | succ n ih =>
      rw [List.range_succ, List.flatMap_append, ih, Nat.succ_mul, List.range_add]
      simp [wordEntries]

theorem filter_visited_range {n : ℕ} (h : ssize ≤ n) :
    (List.range n).filter (visited s ssize) = (List.range ssize).filter s := by
  obtain ⟨d, rfl⟩ := Nat.exists_eq_add_of_le h
  have hnil : ((List.range d).map (ssize + ·)).filter (visited s ssize) = [] :=
    filter_visited_nil (by simp)
  rw [List.range_add, List.filter_append, hnil, List.append_nil]
  refine List.filter_congr fun i hi => ?_
  simp [visited, List.mem_range.mp hi]

/-- What the program takes for a prime. -/
def found (base : List ℕ) (probab : ℕ → Bool) (sievSqrLim m : ℕ) : Bool :=
  decide (Survives base m) && (decide (m < sievSqrLim) || probab m)

theorem findPrimes_eq (hs : ∀ j < ssize, s j = true ↔ Survives base (fr + 2 * j)) :
    findPrimes probab o s fr ssize lim r =
      (((List.range ssize).map (fr + 2 * ·)).filter (found base probab lim)).foldl
        (report o) r := by
  rw [findPrimes, findWords_eq List.pairwise_lt_range, flatMap_wordEntries,
    filter_visited_range (by omega), List.filter_map, List.foldl_map]
  have hfound : (List.range ssize).filter (found base probab lim ∘ (fr + 2 * ·)) =
      ((List.range ssize).filter s).filter
        fun i => decide (fr + i * 2 < lim) || probab (fr + i * 2) := by
    rw [List.filter_filter]
    refine List.filter_congr fun j hj => ?_
    have hj' := hs j (List.mem_range.mp hj)
    rw [Bool.eq_iff_iff]
    simp only [Function.comp, found, Bool.and_eq_true, decide_eq_true_eq, hj', Nat.mul_comm j 2]
    exact and_comm
  rw [hfound]
  generalize (List.range ssize).filter s = l
  rw [List.foldl_filter]
  simp only [Bool.or_eq_true, decide_eq_true_eq, Nat.mul_comm _ 2]

/-! ## The loop over the regions -/

/-- The odd numbers from `fr2` to `to2`. -/
def odds (fr2 to2 : ℕ) : List ℕ := (List.range ((to2 + 2 - fr2) / 2)).map (fr2 + 2 * ·)

theorem odds_nil (h : to2 < fr2) (hfr : fr2 % 2 = 1) (hto : to2 % 2 = 1) : odds fr2 to2 = [] := by
  have hzero : (to2 + 2 - fr2) / 2 = 0 := by omega
  rw [odds, hzero]
  rfl

theorem odds_append (h : fr2 + 2 * ssize ≤ to2 + 2) :
    odds fr2 to2 = (List.range ssize).map (fr2 + 2 * ·) ++ odds (fr2 + 2 * ssize) to2 := by
  have hcount : (to2 + 2 - fr2) / 2 = ssize + (to2 + 2 - (fr2 + 2 * ssize)) / 2 := by omega
  rw [odds, hcount, List.range_add, List.map_append, List.map_map, odds]
  congr 2
  funext i
  simp only [Function.comp]
  omega

theorem sieveRegion_done (hfr : fr % 2 = 1) (hbase : Base (ps.map Prime.prime) lim)
    (hready : ∀ p ∈ ps, Ready fr p) :
    (sieveRegion ps s fr (2 * ssize)).1.map Prime.prime = ps.map Prime.prime ∧
    (∀ p ∈ (sieveRegion ps s fr (2 * ssize)).1, Ready (fr + 2 * ssize) p) ∧
    ∀ j < ssize, (sieveRegion ps s fr (2 * ssize)).2 j = true ↔
      Survives (ps.map Prime.prime) (fr + 2 * j) := by
  have hdone := @sieveLoop_done (fun i => decide (i < (ssize + 7) / 8 * 8) || s i) fr ssize ps hfr
    (fun p hp => hbase.odd p.prime (List.mem_map_of_mem hp)) hbase.sorted hready
  have hhalf : 2 * ssize / 2 = ssize := by omega
  rw [sieveRegion, hhalf]
  refine ⟨hdone.primes, hdone.ready, fun j hj => ?_⟩
  rw [hdone.left j hj]
  have hset : j < (ssize + 7) / 8 * 8 := by omega
  simp [hset]

theorem mainLoop_eq {n : ℕ} (hfr : fr2 % 2 = 1) (hto : to2 % 2 = 1)
    (hprimes : ps.map Prime.prime = base) (hbase : Base base n)
    (hready : ∀ p ∈ ps, Ready fr2 p) :
    mainLoop probab o lim fr2 to2 ps s r =
      ((odds fr2 to2).filter (found base probab lim)).foldl (report o) r := by
  induction hrest : to2 + 1 - fr2 using Nat.strong_induction_on generalizing fr2 ps s r with
  | _ rest ih =>
      subst hprimes
      rw [mainLoop]
      by_cases hle : fr2 ≤ to2
      · rw [if_pos hle]
        -- the last region ends with `to2`
        obtain ⟨ssize, hsize, hfit⟩ : ∃ ssize, (if to2 < fr2 + regionSize then to2 - fr2 + 2
            else regionSize) = 2 * ssize ∧ (fr2 + 2 * ssize ≤ to2 + 2 ∧
              (2 * ssize = regionSize ∨ to2 < fr2 + 2 * ssize ∧ to2 < fr2 + regionSize)) := by
          by_cases hlast : to2 < fr2 + regionSize
          · refine ⟨(to2 - fr2) / 2 + 1, ?_, ?_, .inr ⟨?_, hlast⟩⟩
            · rw [if_pos hlast]
              omega
            · omega
            · omega
          · refine ⟨2 ^ 14, ?_, ?_, .inl rfl⟩
            · rw [if_neg hlast]
              rfl
            · have hsize : regionSize = 2 * 2 ^ 14 := rfl
              omega
        obtain ⟨hprimes, hnext, hleft⟩ := @sieveRegion_done s fr2 ssize ps n hfr hbase hready
        have hhalf : 2 * ssize / 2 = ssize := by omega
        simp only [hsize, hhalf]
        rw [findPrimes_eq hleft, odds_append hfit.1, List.filter_append,
          List.foldl_append]
        rcases hfit.2 with hfull | ⟨hlast, hend⟩
        · have hpos : 0 < 2 * ssize := by
            rw [hfull]
            decide
          rw [← hfull]
          simpa using ih _ (by omega) (by omega) hprimes hnext rfl
        · rw [mainLoop, if_neg (by omega), odds_nil hlast (by omega) hto]
          simp
      · rw [if_neg hle, odds_nil (by omega) hfr hto]
        rfl

end AutotestClient.Primes
