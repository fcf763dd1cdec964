import AutotestClient.Verification.Iozone.Tables
import Mathlib.Data.Finset.Basic

/-! # The columns of the graphs

Every number is traced to the columns of the results it was computed from. The key-values and the
throughputs of the flat graphs are those of the label, but these graphs are over the record size,
and the surfaces show a column two places to the left. -/

namespace AutotestClient.Iozone

open Shared (bind_eq_ok exists_lookup_insertAll printInt_append_inj Stops)

/-! ## Tracing -/

/-- A number and the columns it was computed from. -/
structure Cell where
  value : ℤ
  sources : Finset (Fin 15)
  deriving DecidableEq

/-- A mean comes from all the columns its numbers come from. -/
def Cell.mean (mean : List ℤ → ℤ) (cells : List Cell) : Cell :=
  ⟨mean (cells.map Cell.value), cells.foldr (fun c s => c.sources ∪ s) ∅⟩

def traced (line : Line ℤ) : Line Cell := fun i => ⟨line i, {i}⟩

/-- The cell is there, and is a measurement with this label. -/
def Denotes (label : Text) (cell : Option Cell) : Prop :=
  cell.map Cell.sources = some {column label}

/-- The graphs for a file. -/
def tracedGraphs (mean : List ℤ → ℤ) (text : Text) : Except Failure (Graphs Cell) :=
  graphs Cell.value (Cell.mean mean) ((parseFile text).map traced)

def tracedKeylist (text : Text) : AList fun _ : Text => Cell :=
  keylist Cell.value ((keyvalLines text).map traced)

/-- What is stored or shown for a label are measurements with this label, over the sizes that the
axes name. -/
structure Agree (mean : List ℤ → ℤ) (text label : Text) : Prop where
  keyval : ∀ line ∈ keyvalLines text, ∃ line' ∈ keyvalLines text,
    line' 0 = line 0 ∧ line' 1 = line 1 ∧
      (tracedKeylist text).lookup (keyName id line label) = some (traced line' (column label))
  matrix : ∀ line ∈ (parseFile text).map traced, Denotes label (some (line (column label)))
  plot2d : ∀ g, tracedGraphs mean text = .ok g →
    ∀ points, (label, points) ∈ g.plot2d → ∀ p ∈ points,
      Denotes "file_size".toList p.1 ∧ Denotes label p.2
  plot3d : ∀ g, tracedGraphs mean text = .ok g →
    ∀ points, (label, points) ∈ g.plot3d → ∀ p ∈ points,
      Denotes "file_size".toList p.1 ∧ Denotes "record_size".toList p.2.1 ∧ Denotes label p.2.2

/-- There are results, and each throughput has a logarithm. -/
def Drawn (text : Text) : Prop :=
  parseFile text ≠ [] ∧ ∀ line ∈ parseFile text, ∀ i ∈ throughputs, 0 < line i

variable {mean : List ℤ → ℤ} {text label : Text} {results : List (Line ℤ)}

theorem tracedGraphs_eq_ok {g : Graphs Cell} (h : tracedGraphs mean text = .ok g) :
    ∃ t, tables Cell.value (Cell.mean mean) ((parseFile text).map traced) = .ok t ∧
      g = ⟨plot2dGraphs (dataSources t ((parseFile text).map traced)),
        plot3dGraphs (dataSources t ((parseFile text).map traced))⟩ := by
  obtain ⟨t, ht, hg⟩ := bind_eq_ok h
  exact ⟨t, ht, (Except.ok.inj hg).symm⟩

theorem exists_tracedGraphs_iff : (∃ g, tracedGraphs mean text = .ok g) ↔ Drawn text := by
  have htables := @exists_tables_iff Cell Cell.value (Cell.mean mean)
    ((parseFile text).map traced) _
  rw [List.forall_mem_map, ne_eq, List.map_eq_nil_iff] at htables
  refine Iff.trans ⟨?_, ?_⟩ htables
  · rintro ⟨g, hg⟩
    obtain ⟨t, ht, -⟩ := tracedGraphs_eq_ok hg
    exact ⟨t, ht⟩
  · rintro ⟨t, ht⟩
    rw [tracedGraphs, graphs, ht]
    exact ⟨_, rfl⟩

/-! ## The key-values -/

theorem stops_minus (rest : List Char) : Stops ('-' :: rest) := by
  intro c hc
  obtain rfl := Option.some.inj hc
  decide

theorem keyName_inj {line line' : Line ℤ} {label' : Text}
    (h : keyName id line label = keyName id line' label') :
    line 0 = line' 0 ∧ line 1 = line' 1 ∧ label = label' := by
  obtain ⟨hfile, h⟩ := printInt_append_inj (stops_minus _) (stops_minus _) h
  obtain ⟨hrecord, h⟩ := printInt_append_inj (stops_minus _) (stops_minus _) (List.cons.inj h).2
  exact ⟨hfile, hrecord, (List.cons.inj h).2⟩

theorem throughputs_eq : throughputs = (labels.drop 2).map column := by
  decide

theorem mem_lineKeyvals_iff {line : Line ℤ} {e : Text × Cell} :
    e ∈ lineKeyvals Cell.value (traced line) ↔
      ∃ l ∈ labels.drop 2, e = (keyName id line l, traced line (column l)) := by
  rw [lineKeyvals, throughputs_eq, List.map_map, List.zip_map_right, List.zip_eq_zipWith,
    List.zipWith_self, List.map_map, List.map_map, List.mem_map]
  exact exists_congr fun l => and_congr_right fun _ => eq_comm

theorem tracedKeylist_lookup (hlabel : label ∈ labels.drop 2) {line : Line ℤ}
    (hline : line ∈ keyvalLines text) :
    ∃ line' ∈ keyvalLines text, line' 0 = line 0 ∧ line' 1 = line 1 ∧
      (tracedKeylist text).lookup (keyName id line label) = some (traced line' (column label)) := by
  have hentries (e : Text × Cell) :
      e ∈ ((keyvalLines text).map traced).flatMap (lineKeyvals Cell.value) ↔
        ∃ l ∈ keyvalLines text, ∃ l' ∈ labels.drop 2,
          e = (keyName id l l', traced l (column l')) := by
    simp only [List.flatMap_map, List.mem_flatMap, mem_lineKeyvals_iff]
  obtain ⟨c, hlookup, hmem⟩ := exists_lookup_insertAll
    ((hentries _).mpr ⟨line, hline, label, hlabel, rfl⟩)
  obtain ⟨line', hline', label', -, heq⟩ := (hentries _).mp hmem
  obtain ⟨hkey, rfl⟩ := Prod.mk.inj heq
  obtain ⟨hfile, hrecord, rfl⟩ := keyName_inj hkey
  exact ⟨line', hline', hfile.symm, hrecord.symm, hlookup⟩

/-! ## The tables -/

theorem sizes_traced (index : Fin 15) (results : List (Line ℤ)) :
    sizes Cell.value index (results.map traced) =
      (sizes id index results).map fun v => ⟨v, {index}⟩ := by
  have hinj : Function.Injective fun v : ℤ => Cell.mk v {index} :=
    fun _ _ h => (Cell.mk.inj h).1
  rw [sizes, sizes, List.map_map]
  have hmap : results.map ((fun line => line index) ∘ traced) =
      (results.map fun line => line index).map fun v => ⟨v, {index}⟩ := by
    rw [List.map_map]
    rfl
  rw [hmap, List.dedup_map_of_injective hinj]
  exact (List.map_insertionSort (fun a b : ℤ => id a ≤ id b)
    (fun a b : Cell => a.value ≤ b.value) _ _ fun _ _ _ _ => Iff.rfl).symm

theorem mean_traced {lines : List (Line ℤ)} (hne : lines ≠ []) (i : Fin 15) :
    Cell.mean mean ((lines.map traced).map fun line => line i) =
      ⟨mean (lines.map fun line => line i), {i}⟩ := by
  have hsources : ((lines.map traced).map fun line => line i).foldr
      (fun c s => c.sources ∪ s) ∅ = ({i} : Finset (Fin 15)) := by
    induction lines with
    | nil => exact absurd rfl hne
    | cons line lines ih =>
        cases lines with
        | nil => simp [traced]
        | cons line' lines =>
            rw [List.map_cons, List.map_cons, List.foldr_cons, ih (List.cons_ne_nil _ _)]
            simp [traced]
  rw [Cell.mean, hsources, List.map_map, List.map_map]
  rfl

theorem row_traced {index : Fin 15} {size : ℤ} (hsize : size ∈ sizes id index results) :
    row (Cell.mean mean) index (results.map traced) ⟨size, {index}⟩ =
      List.zipWith Cell.mk (row mean index results size)
        ({index} :: throughputs.map fun i => {i}) := by
  obtain ⟨line, hline, rfl⟩ := mem_sizes_iff.mp hsize
  have hfilter : ((results.map traced).filter fun l => l index = ⟨line index, {index}⟩) =
      (results.filter fun l => l index = line index).map traced := by
    rw [List.filter_map]
    congr 2
    funext l
    simp [traced]
  have hne : (results.filter fun l => l index = line index) ≠ [] :=
    List.ne_nil_of_mem (List.mem_filter.mpr ⟨hline, by simp⟩)
  rw [row, row, hfilter, List.zipWith_cons_cons]
  simp only [mean_traced hne, List.zipWith_map, List.zipWith_self]

/-- The numbers of the traced table are those of the table, and each row has the size and the
throughputs in their order. -/
theorem table_traced (mean : List ℤ → ℤ) (index : Fin 15) (results : List (Line ℤ)) :
    table Cell.value (Cell.mean mean) index (results.map traced) =
      (table id mean index results).map fun row =>
        List.zipWith Cell.mk row ({index} :: throughputs.map fun i => {i}) := by
  rw [table, table, sizes_traced, List.map_map, List.map_map]
  apply List.map_congr_left
  intro size hsize
  exact row_traced hsize

/-! ## The graphs -/

/-- Where the cells of a row for a record size come from. -/
def rowSources : List (Finset (Fin 15)) :=
  {column "record_size".toList} :: throughputs.map fun i => {i}

theorem gnuplotColumn_rowSources : ∀ e ∈ (List.range' 2 13).zip (labels.drop 2),
    gnuplotColumn e.1 rowSources = some {column e.2} := by
  decide

theorem sources_gnuplotColumn {r : List ℤ} (hlength : r.length = rowSources.length) (k : ℕ) :
    (gnuplotColumn k (List.zipWith Cell.mk r rowSources)).map Cell.sources =
      gnuplotColumn k rowSources := by
  have hsources : (List.zipWith Cell.mk r rowSources).map Cell.sources = rowSources := by
    rw [← List.map_uncurry_zip_eq_zipWith, List.map_map]
    exact List.map_snd_zip hlength.symm.le
  rw [gnuplotColumn, gnuplotColumn, ← List.getElem?_map, hsources]

/-- A flat graph shows the throughput with its label, over the record size. -/
theorem flat_denotes {g : Graphs Cell} (hg : tracedGraphs mean text = .ok g)
    {points : List (Option Cell × Option Cell)} (hpoints : (label, points) ∈ g.plot2d) :
    ∀ p ∈ points, Denotes "record_size".toList p.1 ∧ Denotes label p.2 := by
  have hdrawn := exists_tracedGraphs_iff.mp ⟨g, hg⟩
  obtain ⟨t, ht, rfl⟩ := tracedGraphs_eq_ok hg
  rw [tables_of_pos (by simpa using hdrawn.1) (by simpa [traced] using hdrawn.2)] at ht
  obtain rfl := Except.ok.inj ht
  obtain ⟨e, he, heq⟩ := List.mem_map.mp hpoints
  obtain ⟨rfl, rfl⟩ := Prod.mk.inj heq
  rw [List.forall_mem_map]
  change ∀ r ∈ table _ _ _ _, _
  rw [table_traced, List.forall_mem_map]
  change ∀ r ∈ List.map _ _, _
  rw [List.forall_mem_map]
  intro size _
  exact ⟨sources_gnuplotColumn rfl 1, (sources_gnuplotColumn rfl e.1).trans
    (gnuplotColumn_rowSources e he)⟩

/-- The column numbers of the surfaces are two too small, and gnuplot counts from 1. -/
theorem plot3d_index : ∀ e ∈ (List.range' 1 13).zip (labels.drop 2),
    1 ≤ e.1 ∧ (column e.2).val = e.1 + 1 := by
  decide

theorem exists_plot3d_index (hlabel : label ∈ labels.drop 2) :
    ∃ k, (k, label) ∈ (List.range' 1 13).zip (labels.drop 2) := by
  have hall : ((List.range' 1 13).zip (labels.drop 2)).map Prod.snd = labels.drop 2 := by decide
  rw [← hall, List.mem_map] at hlabel
  obtain ⟨e, he, rfl⟩ := hlabel
  exact ⟨e.1, he⟩

/-- A surface shows the column two places to the left of the one with its label. -/
theorem not_denotes_surface {k : ℕ} (hk : (k, label) ∈ (List.range' 1 13).zip (labels.drop 2))
    (line : Line ℤ) : ¬Denotes label (gnuplotColumn k (List.ofFn (traced line))) := by
  obtain ⟨hpos, hcolumn⟩ := plot3d_index _ hk
  have hlt : k - 1 < 15 := by
    have := (column label).isLt
    omega
  rw [Denotes, gnuplotColumn, List.getElem?_ofFn, dif_pos hlt]
  intro h
  have heq := Finset.singleton_injective (Option.some.inj h)
  have hval := congrArg Fin.val heq
  dsimp only at hval hcolumn
  omega

theorem Agree.not_drawn (hagree : Agree mean text label) (hlabel : label ∈ labels.drop 2) :
    ¬Drawn text := by
  intro hdrawn
  obtain ⟨g, hg⟩ := exists_tracedGraphs_iff.mpr hdrawn
  obtain ⟨t, ht, rfl⟩ := tracedGraphs_eq_ok hg
  obtain ⟨k, hk⟩ := exists_plot3d_index hlabel
  obtain ⟨line, hline⟩ := List.exists_mem_of_ne_nil _ hdrawn.1
  have hpoints := hagree.plot3d _ hg _ (List.mem_map.mpr ⟨(k, label), hk, rfl⟩)
  have hrow : List.ofFn (traced line) ∈ (dataSources t ((parseFile text).map traced)).surface :=
    List.mem_map.mpr ⟨_, List.mem_map.mpr ⟨line, hline, rfl⟩, rfl⟩
  have hpoint := hpoints _ (List.mem_map.mpr ⟨_, hrow, rfl⟩)
  exact not_denotes_surface hk line hpoint.2.2

/-- The consumers agree exactly if no graph is drawn. -/
theorem consumers_agree_iff (mean : List ℤ → ℤ) (text label : Text)
    (hlabel : label ∈ labels.drop 2) : Agree mean text label ↔ ¬Drawn text := by
  refine ⟨fun hagree => hagree.not_drawn hlabel, fun hnone => ?_⟩
  have hno (g : Graphs Cell) : tracedGraphs mean text ≠ .ok g :=
    fun hg => hnone (exists_tracedGraphs_iff.mp ⟨g, hg⟩)
  constructor
  · intro line hline
    exact tracedKeylist_lookup hlabel hline
  · rw [List.forall_mem_map]
    intro line _
    rfl
  · intro g hg
    exact absurd hg (hno g)
  · intro g hg
    exact absurd hg (hno g)

/-- A result line with a throughput of zero, which has no logarithm. -/
def zeroText : Text :=
  "  1024  4  2048  2048  4096  4096  0  2048  4096  2048  4096  2048  2048  4096  4096".toList

theorem consumers_agree_zero :
    parseFile zeroText ≠ [] ∧ Agree meanOfEqual zeroText "write".toList := by
  refine ⟨by decide +kernel, (consumers_agree_iff meanOfEqual _ _ (by decide)).mpr ?_⟩
  rintro ⟨-, hpositive⟩
  revert hpositive
  decide +kernel

theorem consumers_disagree : ¬Agree meanOfEqual resultsText "write".toList :=
  fun hagree => hagree.not_drawn (by decide) ⟨by decide +kernel, by decide +kernel⟩

end AutotestClient.Iozone
