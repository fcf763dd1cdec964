import AutotestClient.Verification.Iozone.Tables
import Mathlib.Algebra.Order.Field.Rat
import Mathlib.Tactic.NormNum

/-! # Accounting for the cells

The counter of the cells that are the same is never increased. The first cell of a row is the size
it is for, so either a row is compared with one for another size or a cell is lost. -/

namespace AutotestClient.Iozone

open Shared (bind_eq_ok exists_mapM_eq_ok_iff mapM_eq_ok_iff)

variable {mean : List ℤ → ℤ} {results : List (Line ℤ)} {matrix1 matrix2 : List (List ℤ)}
  {c : Comparison}

/-! ## The property -/

def Entry.isSame : Entry → Bool
  | .element _ | .dot => true
  | .regression _ | .improvement _ => false

def Entry.isRegression : Entry → Bool
  | .regression _ => true
  | _ => false

def Entry.isImprovement : Entry → Bool
  | .improvement _ => true
  | _ => false

/-- The numbers of cells compared in each row. -/
def cells (matrix1 matrix2 : List (List ℤ)) : List ℕ :=
  (matrix1.zip matrix2).map fun l => (l.1.zip l.2).length

/-- Rows are compared with rows for the same size, every cell is classified, and each one counts. -/
structure Accounts (matrix1 matrix2 : List (List ℤ)) (c : Comparison) : Prop where
  labels : ∀ l ∈ matrix1.zip matrix2, l.1.head? = l.2.head?
  classified : c.newMatrix.map List.length = cells matrix1 matrix2
  regressions : c.regressions = c.newMatrix.flatten.countP Entry.isRegression
  improvements : c.improvements = c.newMatrix.flatten.countP Entry.isImprovement
  cells : c.total = (cells matrix1 matrix2).sum
  total : c.total = c.improvements + c.regressions + c.newMatrix.flatten.countP Entry.isSame
  pos : 0 < c.total

/-- A file with result lines of positive numbers, and throughputs of at least 1 MB/s. -/
structure ResultsFile (text : Text) : Prop where
  nonempty : parseFile text ≠ []
  pos : ∀ line ∈ parseFile text, ∀ i, 0 < line i
  throughput : ∀ line ∈ parseFile text, ∀ i ∈ throughputs, 1024 ≤ line i

theorem ResultsFile.throughput_pos {text : Text} (h : ResultsFile text) :
    ∀ line ∈ parseFile text, ∀ i ∈ throughputs, 0 < id (line i) :=
  fun line hline i _ => h.pos line hline i

/-! ## Counting -/

theorem pos_of_mem_table (hmean : ∀ values, 0 < mean values)
    (hpos : ∀ line ∈ results, ∀ i, 0 < line i) (index : Fin 15) :
    ∀ l ∈ table id mean index results, ∀ x ∈ l, 0 < x := by
  rw [table, List.forall_mem_map]
  intro size hsize
  obtain ⟨line, hline, rfl⟩ := mem_sizes_iff.mp hsize
  rw [row, List.forall_mem_cons, List.forall_mem_map]
  exact ⟨hpos line hline index, fun _ _ => hmean _⟩

theorem exists_compareMatrices (h : ∀ l ∈ matrix1, ∀ x ∈ l, 0 < x) (matrix2 : List (List ℤ)) :
    ∃ c, compareMatrices matrix1 matrix2 = .ok c := by
  have hlines : ∀ l ∈ matrix1.zip matrix2, ∃ entries, compareLines l.1 l.2 = .ok entries := by
    intro l hl
    apply exists_mapM_eq_ok_iff.mpr
    intro e he
    have hne : e.1 ≠ 0 := (h l.1 (List.of_mem_zip hl).1 e.1 (List.of_mem_zip he).1).ne'
    rw [compareElements, if_neg hne]
    dsimp only
    split_ifs <;> exact ⟨_, rfl⟩
  obtain ⟨newMatrix, hnew⟩ := exists_mapM_eq_ok_iff.mpr hlines
  rw [compareMatrices, hnew]
  exact ⟨_, rfl⟩

/-- The counter of the cells that are the same stays where it is. -/
theorem same_foldl_count (entries : List Entry) (k : Counters) :
    (entries.foldl Counters.count k).same = k.same := by
  induction entries generalizing k with
  | nil => rfl
  | cons e entries ih =>
      rw [List.foldl_cons, ih]
      cases e <;> rfl

theorem total_eq (h : compareMatrices matrix1 matrix2 = .ok c) :
    c.total = c.improvements + c.regressions := by
  obtain ⟨newMatrix, hnew, h⟩ := bind_eq_ok h
  obtain rfl := Except.ok.inj h
  simp [same_foldl_count]

/-- The cells with equal sizes are the same. -/
theorem isSame_of_compareElements {line1 : List ℤ} {x : ℤ} {entry : Entry}
    (h : compareElements line1 x x = .ok entry) : entry.isSame := by
  rw [compareElements] at h
  by_cases hx : x = 0
  · simp [hx] at h
  · have hratio : (x : ℚ) / x = 1 := div_self (Int.cast_ne_zero.mpr hx)
    rw [if_neg hx, hratio] at h
    norm_num at h
    split_ifs at h <;> (obtain rfl := Except.ok.inj h; rfl)

theorem not_accounts {size1 size2 : ℤ} {line1 line2 : List ℤ} {rows1 rows2 : List (List ℤ)}
    (h : compareMatrices ((size1 :: line1) :: rows1) ((size2 :: line2) :: rows2) = .ok c) :
    ¬Accounts ((size1 :: line1) :: rows1) ((size2 :: line2) :: rows2) c := by
  intro hacc
  obtain rfl : size1 = size2 := Option.some.inj (hacc.labels _ List.mem_cons_self)
  have hnone : c.newMatrix.flatten.countP Entry.isSame = 0 := by
    have htotal := hacc.total
    rw [total_eq h] at htotal
    omega
  obtain ⟨newMatrix, hnew, hc⟩ := bind_eq_ok h
  obtain rfl := Except.ok.inj hc
  rw [List.zip_cons_cons, mapM_eq_ok_iff] at hnew
  obtain ⟨entries, rest, hentries, -, rfl⟩ := List.forall₂_cons_left_iff.mp hnew
  rw [compareLines, List.zip_cons_cons, mapM_eq_ok_iff] at hentries
  obtain ⟨entry, entries, hentry, -, rfl⟩ := List.forall₂_cons_left_iff.mp hentries
  rw [List.countP_eq_zero] at hnone
  exact hnone entry (by simp) (isSame_of_compareElements hentry)

/-- Two runs are compared without an exception, and neither comparison accounts for its cells. -/
theorem analyze_not_accounts (mean : List ℤ → ℤ) (hmean : ∀ values, 0 < mean values)
    (text1 text2 : Text) (h1 : ResultsFile text1) (h2 : ResultsFile text2) :
    ∃ tables1 tables2 record file,
      tables id mean (parseFile text1) = .ok tables1 ∧
      tables id mean (parseFile text2) = .ok tables2 ∧
      compareMatrices tables1.recordSize tables2.recordSize = .ok record ∧
      compareMatrices tables1.fileSize tables2.fileSize = .ok file ∧
      ¬Accounts tables1.recordSize tables2.recordSize record ∧
      ¬Accounts tables1.fileSize tables2.fileSize file := by
  have hcompare (index : Fin 15) : ∃ c,
      compareMatrices (table id mean index (parseFile text1)) (table id mean index (parseFile text2)) =
        .ok c ∧
      ¬Accounts (table id mean index (parseFile text1)) (table id mean index (parseFile text2)) c := by
    obtain ⟨c, hc⟩ := exists_compareMatrices (pos_of_mem_table hmean h1.pos index)
      (table id mean index (parseFile text2))
    obtain ⟨size1, line1, rows1, htable1⟩ := exists_table_eq_cons id mean index h1.nonempty
    obtain ⟨size2, line2, rows2, htable2⟩ := exists_table_eq_cons id mean index h2.nonempty
    rw [htable1, htable2] at hc ⊢
    exact ⟨c, hc, not_accounts hc⟩
  obtain ⟨record, hrecord, hnotRecord⟩ := hcompare (column "record_size".toList)
  obtain ⟨file, hfile, hnotFile⟩ := hcompare (column "file_size".toList)
  exact ⟨_, _, record, file, tables_of_pos h1.nonempty h1.throughput_pos,
    tables_of_pos h2.nonempty h2.throughput_pos,
    hrecord, hfile, hnotRecord, hnotFile⟩

/-! ## Identical runs -/

theorem resultsText_valid : ResultsFile resultsText where
  nonempty := by decide +kernel
  pos := by decide +kernel
  throughput := by decide +kernel

theorem analyze_not_accounts_equal :
    ∃ tables1 tables2 record file,
      tables id meanOfEqual (parseFile resultsText) = .ok tables1 ∧
      tables id meanOfEqual (parseFile resultsText) = .ok tables2 ∧
      compareMatrices tables1.recordSize tables2.recordSize = .ok record ∧
      compareMatrices tables1.fileSize tables2.fileSize = .ok file ∧
      ¬Accounts tables1.recordSize tables2.recordSize record ∧
      ¬Accounts tables1.fileSize tables2.fileSize file :=
  analyze_not_accounts meanOfEqual (fun _ => lt_max_of_lt_left one_pos) resultsText resultsText
    resultsText_valid resultsText_valid

/-- With two identical runs there is nothing to count, and the percentages are of nothing. -/
theorem analyze_equal_runs :
    ResultsFile resultsText ∧ (∀ values, 0 < meanOfEqual values) ∧
      analyze meanOfEqual resultsText resultsText = .error .zeroDivision :=
  ⟨resultsText_valid, fun _ => lt_max_of_lt_left one_pos, by decide +kernel⟩

end AutotestClient.Iozone
