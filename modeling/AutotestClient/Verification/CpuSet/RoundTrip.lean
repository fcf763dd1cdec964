import AutotestClient.Verification.CpuSet.Buffer
import AutotestClient.Verification.CpuSet.Language

/-! # Parsing what `show_cpu_set` printed -/

namespace AutotestClient.CpuSet

open Shared

/-- The ends of a run as the parser has them. -/
def runRange (r : ℕ × ℕ) : ℤ × ℤ := (r.1, r.2)

theorem itemText_rangeText (r : ℕ × ℕ) : ItemText (rangeText r) (runRange r) := by
  obtain ⟨a, b⟩ := r
  unfold rangeText runRange
  split_ifs with hab
  · have hab : a = b := hab
    subst hab
    exact .single (numeral_toDigits a)
  · exact .range (numeral_toDigits a) (numeral_toDigits b)

theorem listText_runsText (runs : List (ℕ × ℕ)) :
    ListText (runsText runs) (runs.map runRange) := by
  apply ListText.mk
  rw [List.forall₂_map_left_iff, List.forall₂_map_right_iff, List.forall₂_same]
  intro r _
  exact itemText_rangeText r

theorem mem_union_iff (runs : List (ℕ × ℕ)) (cpu : ℕ) :
    cpu ∈ union (runs.map runRange) ↔ ∃ r ∈ runs, r.1 ≤ cpu ∧ cpu ≤ r.2 := by
  induction runs with
  | nil => simp [union]
  | cons r runs ih =>
      rw [List.map_cons, union, List.foldr_cons, Finset.mem_union, ← union, ih]
      simp [runRange]

/-- The parser reads the canonical text of a set as that set. -/
theorem parseText_runsText {runs : List (ℕ × ℕ)} {cpus : Finset ℕ} (hruns : IsRuns runs cpus)
    (hcpus : ∀ cpu ∈ cpus, cpu < cpuSetsize) (badRange : String) :
    parseText badRange (runsText runs) = (cpus, none) := by
  have hunion : union (runs.map runRange) = cpus := by
    ext cpu
    rw [mem_union_iff, hruns.covers]
  have hin : ∀ r ∈ runs.map runRange, InRange r := by
    intro r hr
    obtain ⟨⟨a, b⟩, hab_mem, rfl⟩ := List.mem_map.mp hr
    have hab := hruns.ordered _ hab_mem
    have hb := hcpus b ((hruns.covers b).mpr ⟨_, hab_mem, hab, le_rfl⟩)
    exact ⟨Int.natCast_nonneg a, Int.ofNat_le.mpr hab, Int.ofNat_lt.mpr hb⟩
  rw [parseText_of_listText badRange (listText_runsText runs) hin, hunion]

theorem map_put_range (base : Memory) (text : List Char) :
    (List.range text.length).map (base.put text) = text := by
  apply List.ext_getElem
  · simp
  · intro i hi hi'
    simp [Memory.put, hi']

/-- What `show_cpu_set` printed parses back to the set, and is its canonical text. -/
theorem showCpuSet_parseCpuSet {cpus : Finset ℕ} (hne : cpus ≠ ∅)
    (hcpus : ∀ cpu ∈ cpus, cpu < cpuSetsize) {base mem : Memory} {size n : ℕ}
    (hshow : showCpuSet base size cpus = ((n : ℤ), mem)) :
    parseCpuSet ((List.range n).map mem) = (cpus, none) ∧
      countCpus (parseCpuSet ((List.range n).map mem)).1 = countCpus cpus ∧
      ∃ runs, IsRuns runs cpus ∧ (List.range n).map mem = runsText runs := by
  have hruns := isRuns_runsOf hcpus
  have htext : (List.range n).map mem = runsText (runsOf cpus) := by
    rcases showCpuSet_cases base size cpus with ⟨hempty, -⟩ | ⟨-, -, hfits⟩ | ⟨-, hret, -⟩
    · exact absurd ((runsOf_eq_nil_iff hcpus).mp hempty) hne
    · rw [hfits] at hshow
      obtain ⟨hn, rfl⟩ := Prod.mk.inj hshow
      rw [← Int.natCast_inj.mp hn, map_put_range]
    · rw [hshow] at hret
      simp at hret
  have hparse : parseCpuSet ((List.range n).map mem) = (cpus, none) := by
    rw [htext]
    exact parseText_runsText hruns hcpus _
  exact ⟨hparse, by rw [hparse], runsOf cpus, hruns, htext⟩

/-- The text `0-2,5`. -/
theorem showCpuSet_parseCpuSet_four :
    ∃ mem, showCpuSet (fun _ => 'x') 6 {0, 1, 2, 5} = (((5 : ℕ) : ℤ), mem) ∧
      parseCpuSet ((List.range 5).map mem) = ({0, 1, 2, 5}, none) := by
  have hret : (showCpuSet (fun _ => 'x') 6 {0, 1, 2, 5}).1 = ((5 : ℕ) : ℤ) := by decide +kernel
  generalize hshow : showCpuSet (fun _ => 'x') 6 {0, 1, 2, 5} = result at hret ⊢
  obtain ⟨n, mem⟩ := result
  obtain rfl : n = ((5 : ℕ) : ℤ) := hret
  exact ⟨mem, rfl, (showCpuSet_parseCpuSet (by decide) (by decide) hshow).1⟩

end AutotestClient.CpuSet
