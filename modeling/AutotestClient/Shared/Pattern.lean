import Mathlib.Data.List.TakeWhile

/-! # Anchored patterns

Patterns of classes and repeated classes, matched from the first entry of a text on. -/

namespace AutotestClient.Shared

variable {α : Type*}

inductive Piece (α : Type*) where
  /-- One entry of a class. -/
  | one (p : α → Bool)
  /-- Any number of entries of a class. -/
  | star (p : α → Bool)

/-- The entry itself. -/
def Piece.lit [DecidableEq α] (a : α) : Piece α := .one (· = a)

/-- Some beginning of the text matches the pattern. -/
def fits : List (Piece α) → List α → Bool
  | [], _ => true
  | .one _ :: _, [] => false
  | .one p :: ps, c :: text => p c && fits ps text
  | .star p :: ps, text =>
      (List.range ((text.takeWhile p).length + 1)).any fun k => fits ps (text.drop k)

variable {p q : α → Bool} {ps : List (Piece α)} {b c : α} {u v w text : List α}

@[simp] theorem fits_nil : fits [] text = true := by
  rw [fits]

@[simp] theorem fits_one : fits (.one p :: ps) (c :: text) = (p c && fits ps text) := rfl

theorem fits_star_of_not (hc : p c = false) :
    fits (.star p :: ps) (c :: text) = fits ps (c :: text) := by
  rw [fits, List.takeWhile_cons_of_neg (by simp [hc])]
  simp

theorem fits_star_of_pos (hc : p c) :
    fits (.star p :: ps) (c :: text) =
      (fits ps (c :: text) || fits (.star p :: ps) text) := by
  rw [fits, fits, List.takeWhile_cons_of_pos hc, List.length_cons, List.range_succ_eq_map,
    List.any_cons, List.any_map]
  rfl

/-- A repetition ends where its class does, if what comes next is not in it. -/
theorem fits_star_append (hu : ∀ x ∈ u, p x ∧ q x = false) (hc : p c = false) :
    fits (.star p :: .one q :: ps) (u ++ c :: v) = (q c && fits ps v) := by
  induction u with
  | nil => rw [List.nil_append, fits_star_of_not hc, fits_one]
  | cons d u ih =>
      rw [List.forall_mem_cons] at hu
      rw [List.cons_append, fits_star_of_pos hu.1.1, fits_one, hu.1.2, ih hu.2]
      rfl

variable [DecidableEq α]

@[simp] theorem fits_lit : fits (.lit b :: ps) (c :: text) = (decide (c = b) && fits ps text) := rfl

/-- A field of a class up to an end mark. -/
theorem fits_field_append (hne : u ≠ []) (hu : ∀ x ∈ u, p x) (hb : p b = false) :
    fits (.one p :: .star p :: .lit b :: ps) (u ++ b :: v) = fits ps v := by
  have hmark : ∀ x ∈ u, p x ∧ decide (x = b) = false := by
    intro x hx
    refine ⟨hu x hx, decide_eq_false ?_⟩
    rintro rfl
    rw [hu x hx] at hb
    cases hb
  obtain ⟨d, u, rfl⟩ := List.exists_cons_of_ne_nil hne
  rw [List.forall_mem_cons] at hmark
  rw [List.cons_append, fits_one, hmark.1.1, Bool.true_and, Piece.lit, fits_star_append hmark.2 hb,
    decide_eq_true rfl, Bool.true_and]

/-- Two words with an end mark. -/
theorem fits_word_append (hu : b ∉ u) (hv : b ∉ v) :
    fits (u.map .lit ++ .lit b :: ps) (v ++ b :: w) = (decide (v = u) && fits ps w) := by
  induction u generalizing v with
  | nil =>
      cases v with
      | nil => simp
      | cons d v =>
          have hd : d ≠ b := fun heq => hv (heq ▸ List.mem_cons_self)
          simp [hd]
  | cons c u ih =>
      rw [List.mem_cons, not_or] at hu
      cases v with
      | nil => simp [hu.1]
      | cons d v =>
          rw [List.mem_cons, not_or] at hv
          rw [List.map_cons, List.cons_append, List.cons_append, fits_lit, ih hu.2 hv.2]
          simp [Bool.and_assoc]

end AutotestClient.Shared
