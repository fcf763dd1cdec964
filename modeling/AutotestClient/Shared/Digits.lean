import AutotestClient.Shared.Numeral
import Mathlib.Data.List.Induction
import Mathlib.Data.Nat.Log
import Mathlib.Tactic.Linarith
import Mathlib.Tactic.Ring

/-! # Digit strings and their values -/

namespace AutotestClient.Shared

variable {base : ℕ}

theorem digitsValue_append (base : ℕ) (xs ys : List Char) :
    digitsValue base (xs ++ ys) = digitsValue base xs * base ^ ys.length + digitsValue base ys := by
  induction ys using List.reverseRecOn with
  | nil => simp [digitsValue]
  | append_singleton ys c ih =>
      rw [← List.append_assoc, digitsValue_append_digit, ih, digitsValue_append_digit,
        List.length_append, List.length_singleton, pow_succ]
      ring

theorem digitsValue_lt {ds : List Char} (hds : ∀ d ∈ ds, isDigitOf base d) :
    digitsValue base ds < base ^ ds.length := by
  induction ds using List.reverseRecOn with
  | nil => simp [digitsValue]
  | append_singleton ds c ih =>
      rw [List.forall_mem_append, List.forall_mem_singleton] at hds
      obtain ⟨hds, hc⟩ := hds
      obtain ⟨v, hv, hlt⟩ := (Option.any_eq_true _ _).mp hc
      have hvalue := ih hds
      simp only [decide_eq_true_eq] at hlt
      rw [digitsValue_append_digit, hv, List.length_append, List.length_singleton, pow_succ]
      simp only [Option.getD_some]
      nlinarith

/-- The first digits are what is left after division by a power of the base. -/
theorem digitsValue_take {ds : List Char} (hds : ∀ d ∈ ds, isDigitOf base d) (k : ℕ) :
    digitsValue base (ds.take k) = digitsValue base ds / base ^ (ds.length - k) := by
  have hrest : digitsValue base (ds.drop k) < base ^ (ds.length - k) := by
    rw [← List.length_drop]
    exact digitsValue_lt fun d hd => hds d (List.mem_of_mem_drop hd)
  have hsplit := digitsValue_append base (ds.take k) (ds.drop k)
  rw [List.take_append_drop, List.length_drop] at hsplit
  rw [hsplit, Nat.mul_comm, Nat.mul_add_div (by omega), Nat.div_eq_of_lt hrest, Nat.add_zero]

theorem digitValue?_ten {c : Char} (hc : isDigitOf 10 c) :
    digitValue? c = some (c.toNat - '0'.toNat) ∧ '0'.toNat ≤ c.toNat ∧
      c.toNat - '0'.toNat < 10 := by
  rw [isDigitOf, digitValue?] at hc
  rw [digitValue?]
  split_ifs at hc ⊢ with hdec hlower hupper
  · exact ⟨rfl, hdec.1, by simpa using hc⟩
  · simp at hc
  · simp at hc
  · simp at hc

/-- Decimal digits differ if their values do. -/
theorem eq_of_digitValue? {c d : Char} (hc : isDigitOf 10 c) (hd : isDigitOf 10 d)
    (h : digitValue? c = digitValue? d) : c = d := by
  obtain ⟨hcv, hc0, -⟩ := digitValue?_ten hc
  obtain ⟨hdv, hd0, -⟩ := digitValue?_ten hd
  rw [hcv, hdv, Option.some.injEq] at h
  apply Char.toNat_inj.mp
  omega

theorem eq_of_digitsValue {xs ys : List Char} (hxs : ∀ d ∈ xs, isDigitOf 10 d)
    (hys : ∀ d ∈ ys, isDigitOf 10 d) (hlength : xs.length = ys.length)
    (h : digitsValue 10 xs = digitsValue 10 ys) : xs = ys := by
  induction xs using List.reverseRecOn generalizing ys with
  | nil => exact (List.length_eq_zero_iff.mp hlength.symm).symm
  | append_singleton xs c ih =>
      cases ys using List.reverseRecOn with
      | nil => simp at hlength
      | append_singleton ys d =>
          rw [List.forall_mem_append, List.forall_mem_singleton] at hxs hys
          obtain ⟨hcv, -, hclt⟩ := digitValue?_ten hxs.2
          obtain ⟨hdv, -, hdlt⟩ := digitValue?_ten hys.2
          rw [digitsValue_append_digit, digitsValue_append_digit, hcv, hdv] at h
          simp only [Option.getD_some] at h
          have hlast : c = d := by
            apply eq_of_digitValue? hxs.2 hys.2
            rw [hcv, hdv, Option.some.injEq]
            omega
          rw [ih hxs.1 hys.1 (by simpa using hlength) (by omega), hlast]

/-! ## Other digits of the same value -/

theorem digitsValue_zeros (k : ℕ) (ds : List Char) :
    digitsValue base (List.replicate k '0' ++ ds) = digitsValue base ds := by
  induction k with
  | zero => rfl
  | succ k ih =>
      rw [← ih, List.replicate_succ, List.cons_append]
      simp [digitsValue, digitValue?]

theorem digitsValue_map {f : Char → Char} {ds : List Char}
    (h : ∀ c ∈ ds, digitValue? (f c) = digitValue? c) :
    digitsValue base (ds.map f) = digitsValue base ds := by
  induction ds using List.reverseRecOn with
  | nil => rfl
  | append_singleton ds c ih =>
      rw [List.forall_mem_append, List.forall_mem_singleton] at h
      rw [List.map_append, List.map_singleton, digitsValue_append_digit, digitsValue_append_digit,
        ih h.1, h.2]

/-- What holds of the ASCII characters that are digits holds of all digits. -/
theorem forall_digit {P : Char → Prop}
    (h : ∀ n < 128, isDigitOf 16 (Char.ofNat n) → P (Char.ofNat n)) {c : Char}
    (hc : isDigitOf 16 c) : P c := by
  have hlt : c.toNat < 128 := by
    rw [isDigitOf, digitValue?] at hc
    split_ifs at hc with hdec hlower hupper
    · exact lt_of_le_of_lt (show c.toNat ≤ '9'.toNat from hdec.2) (by decide)
    · exact lt_of_le_of_lt (show c.toNat ≤ 'f'.toNat from hlower.2) (by decide)
    · exact lt_of_le_of_lt (show c.toNat ≤ 'F'.toNat from hupper.2) (by decide)
    · simp at hc
  have hn := h c.toNat hlt
  rw [Char.ofNat_toNat] at hn
  exact hn hc

theorem digitValue?_toUpper {c : Char} (hc : isDigitOf 16 c) :
    digitValue? c.toUpper = digitValue? c := by
  apply forall_digit (P := fun c => digitValue? c.toUpper = digitValue? c) _ hc
  decide +kernel

/-! ## Length -/

theorem length_toDigits (hbase : 1 < base) (n : ℕ) :
    (Nat.toDigits base n).length = Nat.log base n + 1 := by
  apply le_antisymm
  · rw [Nat.length_toDigits_le_iff hbase (Nat.succ_pos _)]
    exact Nat.lt_pow_succ_log_self hbase n
  · by_contra hlt
    rw [not_le, Nat.lt_succ_iff] at hlt
    have hpos : 0 < Nat.log base n := lt_of_lt_of_le Nat.length_toDigits_pos hlt
    rw [Nat.length_toDigits_le_iff hbase hpos] at hlt
    have hn : n ≠ 0 := by
      rintro rfl
      simp at hpos
    exact absurd (Nat.pow_log_le_self base hn) (not_le.mpr hlt)

end AutotestClient.Shared
