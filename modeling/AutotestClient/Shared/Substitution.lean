import Mathlib.Data.List.Infix

/-! # Substitution of a fixed pattern

Texts are lists over any alphabet; patterns are not empty. -/

namespace AutotestClient.Shared

variable {α : Type*} [DecidableEq α]

/-- The leftmost occurrence of `p` exchanged for `r`. -/
def replaceFirst (p r : List α) : List α → List α
  | [] => []
  | c :: cs =>
      if p <+: c :: cs then r ++ (c :: cs).drop p.length else c :: replaceFirst p r cs

/-- `replaceAll` with the first `skip` entries belonging to a match already made. -/
def replaceAllFrom (p r : List α) : ℕ → List α → List α
  | _, [] => []
  | skip + 1, _ :: cs => replaceAllFrom p r skip cs
  | 0, c :: cs =>
      if p <+: c :: cs then r ++ replaceAllFrom p r (p.length - 1) cs
      else c :: replaceAllFrom p r 0 cs

/-- Every occurrence of `p`, from the left and without overlap, exchanged for `r`. -/
def replaceAll (p r text : List α) : List α := replaceAllFrom p r 0 text

/-! ### Global substitution -/

variable {c : α} {p r : List α}

@[simp] theorem replaceAll_nil : replaceAll p r [] = [] := rfl

theorem replaceAllFrom_length_append (u w : List α) :
    replaceAllFrom p r u.length (u ++ w) = replaceAll p r w := by
  induction u with
  | nil => rfl
  | cons x u ih => exact ih

theorem replaceAll_match (w : List α) :
    replaceAll (c :: p) r (c :: p ++ w) = r ++ replaceAll (c :: p) r w := by
  have hmatch : c :: p <+: c :: (p ++ w) := List.prefix_append (c :: p) w
  rw [replaceAll, List.cons_append, replaceAllFrom, if_pos hmatch]
  exact congrArg (r ++ ·) (replaceAllFrom_length_append p w)

theorem replaceAll_cons_of_mismatch {x : α} {w : List α} (h : ¬p <+: x :: w) :
    replaceAll p r (x :: w) = x :: replaceAll p r w := by
  rw [replaceAll, replaceAllFrom, if_neg h]
  rfl

omit [DecidableEq α] in
theorem not_prefix_of_notMem {x : α} {u w : List α} (hu : c ∉ x :: u) : ¬c :: p <+: x :: w := by
  intro h
  exact hu (List.mem_cons.mpr (.inl (List.cons_prefix_cons.mp h).1))

omit [DecidableEq α] in
/-- A longer run is no prefix of a shorter one. -/
theorem not_replicate_prefix_of_lt {a : α} {w : List α} (hw : w.head? ≠ some a) {k n : ℕ}
    (hkn : k < n) : ¬List.replicate n a <+: List.replicate k a ++ w := by
  induction k generalizing n with
  | zero =>
      obtain ⟨n, rfl⟩ : ∃ m, n = m + 1 := Nat.exists_eq_succ_of_ne_zero (by omega)
      rintro ⟨v, hv⟩
      apply hw
      rw [← List.nil_append w, ← List.replicate_zero, ← hv]
      rfl
  | succ k ih =>
      obtain ⟨n, rfl⟩ : ∃ m, n = m + 1 := Nat.exists_eq_succ_of_ne_zero (by omega)
      rw [List.replicate_succ, List.replicate_succ, List.cons_append, List.cons_prefix_cons]
      exact fun h => ih (by omega) h.2

/-- A part without the first entry of the pattern is copied. -/
theorem replaceAll_append_of_notMem {u : List α} (hu : c ∉ u) (w : List α) :
    replaceAll (c :: p) r (u ++ w) = u ++ replaceAll (c :: p) r w := by
  induction u with
  | nil => rfl
  | cons x u ih =>
      rw [List.cons_append, replaceAll_cons_of_mismatch (not_prefix_of_notMem hu),
        ih (List.not_mem_of_not_mem_cons hu)]
      rfl

/-! ### Substitution of the first occurrence -/

@[simp] theorem replaceFirst_nil : replaceFirst p r [] = [] := rfl

theorem replaceFirst_match (w : List α) : replaceFirst (c :: p) r (c :: p ++ w) = r ++ w := by
  have hmatch : c :: p <+: c :: (p ++ w) := List.prefix_append (c :: p) w
  rw [List.cons_append, replaceFirst, if_pos hmatch]
  simp

theorem replaceFirst_cons_of_mismatch {x : α} {w : List α} (h : ¬p <+: x :: w) :
    replaceFirst p r (x :: w) = x :: replaceFirst p r w := by
  rw [replaceFirst, if_neg h]

theorem replaceFirst_append_of_notMem {u : List α} (hu : c ∉ u) (w : List α) :
    replaceFirst (c :: p) r (u ++ w) = u ++ replaceFirst (c :: p) r w := by
  induction u with
  | nil => rfl
  | cons x u ih =>
      rw [List.cons_append, replaceFirst_cons_of_mismatch (not_prefix_of_notMem hu),
        ih (List.not_mem_of_not_mem_cons hu)]
      rfl

/-- The text is left alone, or one occurrence of the pattern has gone. -/
theorem replaceFirst_cases (p r text : List α) :
    replaceFirst p r text = text ∨
      ∃ u v, text = u ++ p ++ v ∧ replaceFirst p r text = u ++ r ++ v := by
  induction text with
  | nil => exact .inl rfl
  | cons x text ih =>
      by_cases hp : p <+: x :: text
      · obtain ⟨v, hv⟩ := hp
        refine .inr ⟨[], v, hv.symm, ?_⟩
        rw [replaceFirst, if_pos ⟨v, hv⟩, ← hv, List.drop_left]
        rfl
      · rw [replaceFirst_cons_of_mismatch hp]
        rcases ih with ih | ⟨u, v, htext, hout⟩
        · exact .inl (congrArg (x :: ·) ih)
        · exact .inr ⟨x :: u, v, congrArg (x :: ·) htext, congrArg (x :: ·) hout⟩

end AutotestClient.Shared
