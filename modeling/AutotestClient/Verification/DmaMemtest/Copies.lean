import AutotestClient.Model.DmaMemtest
import Mathlib.Tactic.FieldSimp
import Mathlib.Tactic.Linarith
import Mathlib.Tactic.NormNum
import Mathlib.Tactic.Ring

/-! # The copies are at least as large as the memory

One and a half times the memory is rounded down to whole copies. The rounding is made good only if
what is left of the memory is at least half a copy, or the memory is very small. -/

namespace AutotestClient.DmaMemtest

open Shared (digitsValue digitsValue_toDigits isDigitOf mem_toDigits takeWhile_append_of_head)

/-- The line of `/proc/meminfo`. -/
def memTotalLine (gap kb : ℕ) : Text :=
  "MemTotal:".toList ++ (List.replicate gap ' ' ++ (Nat.toDigits 10 kb ++ " kB".toList))

/-- There is a number of copies, and that many have the size of the memory. -/
def EnoughCopies (memStr : Text) (mem bytes : ℕ) : Prop :=
  ∃ c, getSimCps memStr (estSize bytes) = .ok c ∧ (mem : ℤ) ≤ c * estSize bytes

/-! ## The line of the memory -/

theorem searchNumber_append {u ds rest : Text} (hu : ∀ c ∈ u, isDigitOf 10 c = false)
    (hne : ds ≠ []) (hds : ∀ c ∈ ds, isDigitOf 10 c)
    (hrest : ∀ c ∈ rest.head?, isDigitOf 10 c = false) :
    searchNumber (u ++ (ds ++ rest)) = .ok (digitsValue 10 ds) := by
  have hfront : ∀ c ∈ u, (!isDigitOf 10 c) = true := fun c hc => by simp [hu c hc]
  have hhead : ∀ c ∈ (ds ++ rest).head?, (!isDigitOf 10 c) = false := by
    intro c hc
    rw [List.head?_append_of_ne_nil _ hne] at hc
    simp [hds c (List.mem_of_mem_head? hc)]
  rw [searchNumber, (takeWhile_append_of_head hfront hhead).2,
    (takeWhile_append_of_head hds hrest).1]
  split
  · exact absurd rfl hne
  · rfl

theorem searchNumber_memTotalLine (gap kb : ℕ) : searchNumber (memTotalLine gap kb) = .ok kb := by
  have hfront : ∀ c ∈ "MemTotal:".toList ++ List.replicate gap ' ', isDigitOf 10 c = false := by
    intro c hc
    rcases List.mem_append.mp hc with hc | hc
    · have hall : ("MemTotal:".toList.all fun c => !isDigitOf 10 c) = true := by decide
      simpa using List.all_eq_true.mp hall c hc
    · rw [List.eq_of_mem_replicate hc]
      decide
  have hrest : ∀ c ∈ " kB".toList.head?, isDigitOf 10 c = false := by
    intro c hc
    obtain rfl := Option.some.inj hc
    decide
  have hsearch := searchNumber_append hfront (Nat.toDigits_ne_nil (n := kb) (b := 10))
    mem_toDigits hrest
  rwa [List.append_assoc, digitsValue_toDigits (by decide) (by decide)] at hsearch

/-! ## Rounding -/

/-- The number of copies in whole numbers. -/
def copies (mem est : ℕ) : ℕ :=
  3 * mem / (2 * est) + (if est / 2 ≤ mem % est then 1 else 0) + (if mem < 32 then 1 else 0)

theorem getSimCps_eq {memStr : Text} {kb est : ℕ} (hmem : searchNumber memStr = .ok kb)
    (hest : est ≠ 0) : getSimCps memStr est = .ok (copies (kb / 1024) est : ℤ) := by
  have hfloor (mem : ℕ) : ⌊(3 / 2 * mem / est : ℚ)⌋ = ((3 * mem / (2 * est) : ℕ) : ℤ) := by
    have hquotient : (3 / 2 * mem / est : ℚ) = ((3 * mem : ℕ) : ℚ) / ((2 * est : ℕ) : ℚ) := by
      push_cast
      field_simp
    rw [hquotient, Rat.floor_natCast_div_natCast]
    push_cast
    rfl
  have hsmall : kb / 1024 / 32 < 1 ↔ kb / 1024 < 32 := by omega
  rw [getSimCps, hmem]
  show (if est = 0 then _ else _) = _
  rw [if_neg hest]
  simp only [hsmall, ge_iff_le, copies, Except.ok.injEq]
  split_ifs <;> simp only [Int.floor_add_one, hfloor] <;> push_cast <;> ring

/-- Two copies or more are enough: `2 (c + 1) ≤ 3 c`. -/
theorem le_mul_of_two_le {mem est c : ℕ} (hest : est ≠ 0) (hc : c = 3 * mem / (2 * est))
    (h2 : 2 ≤ c) : mem ≤ c * est := by
  have hlt : 3 * mem < 2 * est * (c + 1) := by
    rw [hc]
    exact Nat.lt_mul_div_succ _ (by omega)
  nlinarith

/-- Without two copies, they are too few if there is none and the memory is not empty, or if there
is one and it is smaller than the memory. -/
theorem le_copies_mul_iff {mem est : ℕ} (hest : est ≠ 0) :
    mem ≤ copies mem est * est ↔
      mem < 32 ∨ est / 2 ≤ mem ∧ mem ≤ est ∨ 4 * est ≤ 3 * mem := by
  have hpos : 0 < 2 * est := by omega
  by_cases htwo : 4 * est ≤ 3 * mem
  · have hle : 2 ≤ 3 * mem / (2 * est) := by
      rw [Nat.le_div_iff_mul_le hpos]
      omega
    have hmany : 3 * mem / (2 * est) * est ≤ copies mem est * est := by
      apply Nat.mul_le_mul_right
      rw [copies]
      omega
    exact iff_of_true ((le_mul_of_two_le hest rfl hle).trans hmany) (.inr (.inr htwo))
  · have hquotient : 3 * mem / (2 * est) = if 3 * mem < 2 * est then 0 else 1 := by
      split_ifs with h
      · exact Nat.div_eq_of_lt h
      · rw [Nat.div_eq_iff hpos]
        omega
    have hrest : mem % est = if mem < est then mem else mem - est := by
      split_ifs with h
      · exact Nat.mod_eq_of_lt h
      · rw [Nat.mod_eq_sub_mod (by omega), Nat.mod_eq_of_lt (by omega)]
    rw [copies, hquotient, hrest]
    split_ifs <;> omega

/-! ## The condition -/

theorem getSimCps_enough_iff (gap kb bytes : ℕ) :
    EnoughCopies (memTotalLine gap kb) (kb / 1024) bytes ↔
      1024 * 1024 ≤ bytes ∧
        (kb / 1024 < 32 ∨ estSize bytes / 2 ≤ kb / 1024 ∧ kb / 1024 ≤ estSize bytes ∨
          4 * estSize bytes ≤ 3 * (kb / 1024)) := by
  have hline := searchNumber_memTotalLine gap kb
  have hest : estSize bytes = 0 ↔ ¬1024 * 1024 ≤ bytes := by
    rw [estSize]
    omega
  by_cases hbytes : 1024 * 1024 ≤ bytes
  · have hne : estSize bytes ≠ 0 := fun h => hest.mp h hbytes
    rw [← le_copies_mul_iff hne, EnoughCopies, getSimCps_eq hline hne]
    constructor
    · rintro ⟨c, hc, hle⟩
      obtain rfl := Except.ok.inj hc
      exact ⟨hbytes, by exact_mod_cast hle⟩
    · rintro ⟨-, hle⟩
      exact ⟨_, rfl, by exact_mod_cast hle⟩
  · refine iff_of_false ?_ (fun h => hbytes h.1)
    rintro ⟨c, hc, -⟩
    rw [getSimCps, hline, hest.mpr hbytes] at hc
    cases hc

/-- One copy of 195 megabytes, for 249 megabytes of memory. -/
theorem getSimCps_one_copy : ¬EnoughCopies (memTotalLine 9 255000) (255000 / 1024) 41863580 := by
  rintro ⟨c, hc, hle⟩
  rw [getSimCps_eq (searchNumber_memTotalLine 9 255000) (by decide)] at hc
  obtain rfl := Except.ok.inj hc
  revert hle
  decide

end AutotestClient.DmaMemtest
