import Mathlib.Data.List.Basic

/-! # Quoted parts of a text -/

namespace AutotestClient.Shared

variable {α : Type*} [DecidableEq α] {b c : α} {q q' : Bool}

/-- Each entry with whether it stands between two marks `b`, where `q` tells this of the first one.
A mark that opens is outside, and one that closes is inside. -/
def markQuotes (b : α) : Bool → List α → List (α × Bool)
  | _, [] => []
  | q, c :: text => (c, q) :: markQuotes b (if c = b then !q else q) text

@[simp] theorem map_fst_markQuotes (b : α) (q : Bool) (text : List α) :
    (markQuotes b q text).map Prod.fst = text := by
  induction text generalizing q with
  | nil => rfl
  | cons c text ih => rw [markQuotes, List.map_cons, ih]

theorem markQuotes_takeWhile (p : α → Bool) (b : α) (q : Bool) (text : List α) :
    markQuotes b q (text.takeWhile p) = (markQuotes b q text).takeWhile fun e => p e.1 := by
  induction text generalizing q with
  | nil => rfl
  | cons c text ih =>
      rw [List.takeWhile_cons]
      cases hc : p c
      · simp [markQuotes, hc]
      · simp [markQuotes, hc, ih]

theorem markQuotes_dropLast (b : α) (q : Bool) (text : List α) :
    markQuotes b q text.dropLast = (markQuotes b q text).dropLast := by
  induction text generalizing q with
  | nil => rfl
  | cons c text ih =>
      cases text with
      | nil => rfl
      | cons d text => exact congrArg ((c, q) :: ·) (ih _)

/-- Without marks, all of a text stands on the same side. -/
theorem markQuotes_append_of_not_mem {u v : List α} (hu : b ∉ u) :
    markQuotes b q (u ++ v) = u.map (·, q) ++ markQuotes b q v := by
  induction u with
  | nil => rfl
  | cons c u ih =>
      rw [List.mem_cons, not_or] at hu
      rw [List.cons_append, markQuotes, if_neg (Ne.symm hu.1), ih hu.2, List.map_cons,
        List.cons_append]

theorem markQuotes_of_not_mem {u : List α} (hu : b ∉ u) : markQuotes b q u = u.map (·, q) := by
  have happend := markQuotes_append_of_not_mem (q := q) (v := []) hu
  rwa [List.append_nil, markQuotes, List.append_nil] at happend

/-- What comes after an entry is marked on its own. -/
theorem markQuotes_of_eq_append_cons {text : List α} {u v : List (α × Bool)}
    (h : markQuotes b q text = u ++ (c, q') :: v) :
    v = markQuotes b (if c = b then !q' else q') (v.map Prod.fst) := by
  induction u generalizing q text with
  | nil =>
      cases text with
      | nil => cases h
      | cons d text =>
          obtain ⟨hhead, rfl⟩ := List.cons.inj h
          obtain ⟨rfl, rfl⟩ := Prod.mk.inj hhead
          rw [map_fst_markQuotes]
  | cons e u ih =>
      cases text with
      | nil => cases h
      | cons d text => exact ih (List.cons.inj h).2

end AutotestClient.Shared
