import AutotestClient.Model.Iozone
import AutotestClient.Shared.Except

/-! # The tables of averages -/

namespace AutotestClient.Iozone

open Shared (bind_eq_ok exists_mapM_eq_ok_iff mapM_eq_ok_map)

variable {α : Type} {value : α → ℤ} {mean : List α → α} {results : List (Line α)}

theorem averagePerformance_of_pos (hne : results ≠ [])
    (hpos : ∀ line ∈ results, ∀ i ∈ throughputs, 0 < value (line i)) (size : Option α) :
    averagePerformance value mean results size =
      .ok (size.toList ++ throughputs.map fun i => mean (results.map fun line => line i)) := by
  have haverages : (throughputs.mapM fun i => average value mean (results.map fun line => line i)) =
      .ok (throughputs.map fun i => mean (results.map fun line => line i)) := by
    apply mapM_eq_ok_map
    intro i hi
    have hall : (results.map fun line => line i).all (fun v => decide (0 < value v)) = true := by
      simpa using fun line hline => hpos line hline i hi
    rw [average, if_neg (by simpa using hne), if_pos hall]
  rw [averagePerformance, haverages]
  rfl

variable [DecidableEq α]

/-- The row for a size. -/
def row (mean : List α → α) (index : Fin 15) (results : List (Line α)) (size : α) : List α :=
  size :: throughputs.map fun i =>
    mean ((results.filter fun line => line index = size).map fun line => line i)

/-- The rows for all sizes in a column. -/
def table (value : α → ℤ) (mean : List α → α) (index : Fin 15) (results : List (Line α)) :
    List (List α) :=
  (sizes value index results).map (row mean index results)

theorem mem_sizes_iff {index : Fin 15} {size : α} :
    size ∈ sizes value index results ↔ ∃ line ∈ results, line index = size := by
  rw [sizes, List.mem_insertionSort, List.mem_dedup, List.mem_map]

theorem processResults_of_pos
    (hpos : ∀ line ∈ results, ∀ i ∈ throughputs, 0 < value (line i)) (index : Fin 15) :
    processResults value mean results (some index) = .ok (table value mean index results) := by
  apply mapM_eq_ok_map
  intro size hsize
  obtain ⟨line, hline, rfl⟩ := mem_sizes_iff.mp hsize
  refine averagePerformance_of_pos ?_ (fun l hl => hpos l (List.mem_of_mem_filter hl)) _
  exact List.ne_nil_of_mem (List.mem_filter.mpr ⟨hline, by simp⟩)

theorem tables_of_pos (hne : results ≠ [])
    (hpos : ∀ line ∈ results, ∀ i ∈ throughputs, 0 < value (line i)) :
    tables value mean results =
      .ok ⟨[throughputs.map fun i => mean (results.map fun line => line i)],
        table value mean (column "record_size".toList) results,
        table value mean (column "file_size".toList) results⟩ := by
  rw [tables, processResults_of_pos hpos, processResults_of_pos hpos, processResults,
    averagePerformance_of_pos hne hpos]
  rfl

/-- There are tables exactly if there is something to average, and a logarithm of all of it. -/
theorem exists_tables_iff : (∃ t, tables value mean results = .ok t) ↔
    results ≠ [] ∧ ∀ line ∈ results, ∀ i ∈ throughputs, 0 < value (line i) := by
  constructor
  · rintro ⟨t, ht⟩
    obtain ⟨overall, hoverall, -⟩ := bind_eq_ok ht
    obtain ⟨averages, haverages, -⟩ := bind_eq_ok hoverall
    obtain ⟨averages, haverages, -⟩ := bind_eq_ok haverages
    have hall (i : Fin 15) (hi : i ∈ throughputs) :
        ∃ v, average value mean (results.map fun line => line i) = .ok v :=
      exists_mapM_eq_ok_iff.mp ⟨averages, haverages⟩ i hi
    constructor
    · rintro rfl
      obtain ⟨v, hv⟩ := hall 2 (by decide)
      cases hv
    · intro line hline i hi
      obtain ⟨v, hv⟩ := hall i hi
      rw [average] at hv
      split_ifs at hv with _ hpos
      simp only [List.all_eq_true, List.forall_mem_map, decide_eq_true_eq] at hpos
      exact hpos line hline
  · rintro ⟨hne, hpos⟩
    exact ⟨_, tables_of_pos hne hpos⟩

/-- A table starts with a size. -/
theorem exists_table_eq_cons (value : α → ℤ) (mean : List α → α) (index : Fin 15)
    (hne : results ≠ []) :
    ∃ size line rows, table value mean index results = (size :: line) :: rows := by
  obtain ⟨line, hline⟩ := List.exists_mem_of_ne_nil results hne
  have hsizes : sizes value index results ≠ [] :=
    List.ne_nil_of_mem (mem_sizes_iff.mpr ⟨line, hline, rfl⟩)
  obtain ⟨size, rest, hcons⟩ := List.exists_cons_of_ne_nil hsizes
  exact ⟨size, _, _, by rw [table, hcons, List.map_cons, row]⟩

/-! ## A file with one result line -/

/-- A mean of equal numbers. -/
def meanOfEqual (values : List ℤ) : ℤ := max 1 (values.headD 0 / 1024)

def resultsText : Text :=
  "  1024  4  2048  2048  4096  4096  4096  2048  4096  2048  4096  2048  2048  4096  4096".toList

end AutotestClient.Iozone
