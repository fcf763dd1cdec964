import Mathlib.Data.List.Infix

/-! # Directory trees -/

namespace AutotestClient.Shared

variable {α : Type*}

/-- The directories of a file system. A path is the list of the names in it. -/
structure PathTree (α : Type*) where
  paths : List (List α)
  root : [] ∈ paths
  closed : ∀ p ∈ paths, ∀ q, q <+: p → q ∈ paths

namespace PathTree

variable [DecidableEq α] {t : PathTree α} {p q r : List α} {rs : List (List α)}

/-- What is missing of a path, from the top down. -/
def missing (t : PathTree α) (p : List α) : List (List α) := p.inits.filter (· ∉ t.paths)

/-- Makes a directory and its parents. -/
def make (t : PathTree α) (p : List α) : PathTree α where
  paths := t.paths ++ t.missing p
  root := List.mem_append_left _ t.root
  closed := by
    intro q hq r hr
    rw [List.mem_append, missing, List.mem_filter, List.mem_inits, decide_eq_true_iff] at hq ⊢
    by_cases hmem : r ∈ t.paths
    · exact .inl hmem
    · rcases hq with hq | ⟨hq, -⟩
      · exact absurd (t.closed q hq r hr) hmem
      · exact .inr ⟨hr.trans hq, hmem⟩

/-- Removes directories with all that is in them, but not the root. -/
def remove (t : PathTree α) (rs : List (List α)) : PathTree α where
  paths := t.paths.filter fun p => p = [] ∨ ∀ r ∈ rs, ¬ r <+: p
  root := by simp [t.root]
  closed := by
    intro p hp q hq
    simp only [List.mem_filter, decide_eq_true_eq] at hp ⊢
    refine ⟨t.closed p hp.1 q hq, ?_⟩
    rcases hp.2 with rfl | hnone
    · exact .inl (List.prefix_nil.mp hq)
    · exact .inr fun r hr h => hnone r hr (h.trans hq)

end PathTree

end AutotestClient.Shared
