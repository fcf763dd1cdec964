import AutotestClient.Model.CpuSet
import AutotestClient.Shared.Runs
import Mathlib.Data.List.GetD

/-! # The buffer of `show_cpu_set`

The loop prints the runs that a scan of the set finds, each as it ends. -/

namespace AutotestClient.CpuSet

open Shared

/-! ### Printing into memory -/

/-- The memory with a text and its NUL at the start. -/
def Memory.put (mem : Memory) (text : List Char) : Memory := fun i =>
  if i < text.length then text.getD i '\x00' else if i = text.length then '\x00' else mem i

section Snprintf

variable {mem base : Memory} {u t : List Char} {len : ℕ}

theorem snprintf_append (hu : ∀ i < u.length, mem i = u.getD i '\x00')
    (hbase : ∀ i, u.length < i → mem i = base i) (hlen : t.length < len) :
    snprintf mem u.length len t = base.put (u ++ t) := by
  have hmin : min t.length (len - 1) = t.length := by omega
  funext i
  simp only [snprintf, Memory.put, hmin, List.length_append]
  rcases Nat.lt_or_ge i u.length with hi | hi
  · rw [if_pos (.inr hi), if_pos (by omega), hu i hi, List.getD_append _ _ _ _ hi]
  · rw [if_neg (by omega)]
    rcases Nat.lt_or_ge (i - u.length) t.length with hit | hit
    · rw [if_pos hit, if_pos (by omega), List.getD_append_right _ _ _ _ hi]
    · rw [if_neg (not_lt.mpr hit)]
      rcases Nat.eq_or_lt_of_le hit with heq | hlt
      · rw [if_pos heq.symm, if_neg (by omega), if_pos (by omega)]
      · rw [if_neg hlt.ne', if_neg (by omega), if_neg (by omega), hbase i (by omega)]

/-- `snprintf` keeps to its buffer. -/
theorem snprintf_of_le (mem : Memory) (bufp : ℕ) (t : List Char) {i : ℕ} (hi : bufp + len ≤ i) :
    snprintf mem bufp len t i = mem i := by
  unfold snprintf
  split_ifs with h0 hin hnul
  · rfl
  · omega
  · omega
  · rfl

end Snprintf

/-! ### The text so far -/

theorem runsText_append (runs : List (ℕ × ℕ)) (r : ℕ × ℕ) :
    runsText (runs ++ [r]) =
      runsText runs ++ ((if runs = [] then [] else [',']) ++ rangeText r) := by
  induction runs with
  | nil => simp [runsText]
  | cons r' runs ih =>
      cases runs with
      | nil => simp [runsText, List.intercalate_cons_cons]
      | cons r'' runs =>
          simp only [runsText, List.cons_append, List.map_cons, List.intercalate_cons_cons,
            List.append_assoc, reduceCtorEq, if_false] at ih ⊢
          rw [ih]

theorem length_runsText_le (runs more : List (ℕ × ℕ)) :
    (runsText runs).length ≤ (runsText (runs ++ more)).length := by
  induction more generalizing runs with
  | nil => simp
  | cons r more ih =>
      have hstep := ih (runs ++ [r])
      rw [List.append_assoc, List.singleton_append] at hstep
      have happend := congrArg List.length (runsText_append runs r)
      rw [List.length_append] at happend
      omega

/-- The variables of `show_cpu_set` after the loop has seen what the scan has seen, from a
buffer of `size` bytes in the memory `base`. -/
structure Prints (base : Memory) (size : ℕ) (s : Show) (scan : RunScan) : Prop where
  bufp : s.bufp = (runsText scan.done).length
  len : s.len = size - (runsText scan.done).length
  fits : scan.done ≠ [] → (runsText scan.done).length < size
  mem : s.mem = if scan.done = [] then base else base.put (runsText scan.done)
  sep : s.sep = if scan.done = [] then [] else [',']
  pending : (s.start, s.stop) = scan.pending.elim (-1, -1) fun r => ((r.1 : ℤ), (r.2 : ℤ))

variable {base : Memory} {size : ℕ} {s : Show} {scan : RunScan} {r : ℕ × ℕ}

theorem Prints.text (h : Prints base size s scan) (hr : scan.pending = some r) :
    (if s.start = s.stop then s.sep ++ printInt s.start
      else s.sep ++ printInt s.start ++ '-' :: printInt s.stop) =
        (if scan.done = [] then [] else [',']) ++ rangeText r := by
  have hpending := h.pending
  rw [hr] at hpending
  obtain ⟨hstart, hstop⟩ := Prod.mk.inj hpending
  rw [hstart, hstop, h.sep, rangeText, printInt_natCast, printInt_natCast]
  by_cases heq : r.1 = r.2
  · simp [heq]
  · have hne : (r.1 : ℤ) ≠ r.2 := by exact_mod_cast heq
    simp [heq, hne]

/-- The text so far is in memory, and nothing was written behind its NUL. -/
theorem Prints.mem_spec (h : Prints base size s scan) :
    (∀ i < (runsText scan.done).length, s.mem i = (runsText scan.done).getD i '\x00') ∧
      ∀ i, (runsText scan.done).length < i → s.mem i = base i := by
  rw [h.mem]
  split_ifs with hdone
  · simp [hdone, runsText]
  · constructor
    · intro i hi
      simp [Memory.put, hi]
    · intro i hi
      simp only [Memory.put, if_neg (not_lt.mpr hi.le), if_neg hi.ne']

/-- `show_range` adds a run to the text if there is room for it and for a NUL; otherwise the
text with that run does not fit. -/
theorem Prints.flush (h : Prints base size s scan) (hr : scan.pending = some r) :
    (∃ s', s.flush = .ok s' ∧ s'.mem = base.put (runsText (scan.done ++ [r])) ∧
        s'.bufp = (runsText (scan.done ++ [r])).length ∧
        s'.len = size - (runsText (scan.done ++ [r])).length ∧
        (runsText (scan.done ++ [r])).length < size) ∨
      ∃ mem, s.flush = .error mem ∧ (∀ i ≥ size, mem i = base i) ∧
        size ≤ (runsText (scan.done ++ [r])).length := by
  have htext := h.text hr
  have happend := runsText_append scan.done r
  obtain ⟨hprinted, hbehind⟩ := h.mem_spec
  have hbufp := h.bufp
  have hlen := h.len
  have hfits := h.fits
  generalize (if scan.done = [] then [] else [',']) ++ rangeText r = t at htext happend
  have hlength := congrArg List.length happend
  rw [List.length_append] at hlength
  have hrange : showRange s.mem s.bufp s.len s.sep s.start s.stop =
      (if t.length < s.len then (t.length : ℤ) else -1, snprintf s.mem s.bufp s.len t) := by
    simp only [showRange, htext]
  by_cases hlt : t.length < s.len
  · refine .inl ⟨{ s with
        mem := snprintf s.mem s.bufp s.len t, bufp := s.bufp + t.length, len := s.len - t.length },
      ?_, ?_, ?_, ?_, ?_⟩
    · simp [Show.flush, hrange, hlt]
    · rw [happend]
      simp only [hbufp]
      exact snprintf_append hprinted hbehind hlt
    · simp only [hbufp, hlength]
    · simp only [hlen, hlength]
      omega
    · omega
  · refine .inr ⟨snprintf s.mem s.bufp s.len t, ?_, ?_, by omega⟩
    · simp [Show.flush, hrange, hlt]
    · intro i hi
      by_cases hdone : scan.done = []
      · have hzero : (runsText scan.done).length = 0 := by simp [hdone, runsText]
        rw [snprintf_of_le _ _ _ (by omega), h.mem, if_pos hdone]
      · have := hfits hdone
        rw [snprintf_of_le _ _ _ (by omega), hbehind i (by omega)]

theorem Prints.start_of_none (h : Prints base size s scan) (hp : scan.pending = none) :
    s.start = -1 ∧ s.stop = -1 := by
  have hpending := h.pending
  rw [hp] at hpending
  exact Prod.mk.inj hpending

theorem Prints.start_of_some (h : Prints base size s scan) (hp : scan.pending = some r) :
    s.start = r.1 ∧ s.stop = r.2 := by
  have hpending := h.pending
  rw [hp] at hpending
  exact Prod.mk.inj hpending

/-- A round of the loop follows the scan, or the run it ends does not fit. -/
theorem Prints.visit (h : Prints base size s scan) (cpus : Finset ℕ) (cpu : ℕ) :
    (∃ s', s.visit cpus cpu = .ok s' ∧ Prints base size s' (scan.visit cpus cpu)) ∨
      ∃ mem, s.visit cpus cpu = .error mem ∧ (∀ i ≥ size, mem i = base i) ∧
        size ≤ (runsText (scan.visit cpus cpu).done).length := by
  by_cases hcpu : cpu ∈ cpus
  · refine .inl ⟨{ s with start := if s.start < 0 then cpu else s.start, stop := cpu },
      by simp [Show.visit, hcpu], ?_⟩
    rw [RunScan.visit, if_pos hcpu]
    refine ⟨h.bufp, h.len, h.fits, h.mem, h.sep, ?_⟩
    cases hp : scan.pending with
    | none => simp [(h.start_of_none hp).1]
    | some r => simp [(h.start_of_some hp).1]
  · rw [RunScan.visit, if_neg hcpu]
    cases hp : scan.pending with
    | none =>
        have hstart := h.start_of_none hp
        refine .inl ⟨s, by simp [Show.visit, hcpu, hstart.1], ?_⟩
        have hruns : scan.runs = scan.done := by simp [RunScan.runs, hp]
        rw [hruns]
        exact ⟨h.bufp, h.len, h.fits, h.mem, h.sep, by simp [hstart]⟩
    | some r =>
        have hstart := (h.start_of_some hp).1
        have hvisit : s.visit cpus cpu =
            s.flush.map fun s => { s with sep := [','], start := -1, stop := -1 } := by
          simp [Show.visit, hcpu, hstart]
        have hruns : scan.runs = scan.done ++ [r] := by simp [RunScan.runs, hp]
        rw [hvisit, hruns]
        rcases h.flush hp with ⟨s', hs', hmem, hbufp, hlen, hfits⟩ | ⟨mem, hs', hmem, hfull⟩
        · refine .inl ⟨{ s' with sep := [','], start := -1, stop := -1 }, by rw [hs']; rfl, ?_⟩
          exact ⟨hbufp, hlen, fun _ => hfits, by simpa using hmem, by simp, rfl⟩
        · exact .inr ⟨mem, by rw [hs']; rfl, hmem, hfull⟩

/-- The scan never takes back a run that is over. -/
theorem done_prefix_foldl (cpus : Finset ℕ) (rest : List ℕ) (scan : RunScan) :
    ∃ more, (rest.foldl (RunScan.visit cpus) scan).runs = scan.done ++ more := by
  induction rest generalizing scan with
  | nil => exact ⟨_, rfl⟩
  | cons cpu rest ih =>
      obtain ⟨more, hmore⟩ := ih (scan.visit cpus cpu)
      rw [List.foldl_cons, hmore]
      unfold RunScan.visit
      split_ifs
      · exact ⟨more, rfl⟩
      · exact ⟨scan.pending.toList ++ more, by simp [RunScan.runs]⟩

/-- The loop follows the scan, or the whole text does not fit. -/
theorem Prints.foldlM (cpus : Finset ℕ) (rest : List ℕ) (h : Prints base size s scan) :
    (∃ s', rest.foldlM (Show.visit cpus) s = .ok s' ∧
        Prints base size s' (rest.foldl (RunScan.visit cpus) scan)) ∨
      ∃ mem, rest.foldlM (Show.visit cpus) s = .error mem ∧ (∀ i ≥ size, mem i = base i) ∧
        size ≤ (runsText (rest.foldl (RunScan.visit cpus) scan).runs).length := by
  induction rest generalizing s scan with
  | nil => exact .inl ⟨s, rfl, h⟩
  | cons cpu rest ih =>
      rw [List.foldlM_cons, List.foldl_cons]
      rcases h.visit cpus cpu with ⟨s', hs', hprints⟩ | ⟨mem, hs', hmem, hfull⟩
      · rw [hs']
        exact ih hprints
      · refine .inr ⟨mem, by rw [hs']; rfl, hmem, ?_⟩
        obtain ⟨more, hmore⟩ := done_prefix_foldl cpus rest (scan.visit cpus cpu)
        rw [hmore]
        exact hfull.trans (length_runsText_le _ more)

/-- The runs `show_cpu_set` prints. -/
def runsOf (cpus : Finset ℕ) : List (ℕ × ℕ) := (RunScan.below cpus cpuSetsize).runs

/-- `show_cpu_set`: an empty set is not printed at all, a text that fits is in the buffer with
its NUL, and a text that does not fit is refused. -/
theorem showCpuSet_cases (base : Memory) (size : ℕ) (cpus : Finset ℕ) :
    (runsOf cpus = [] ∧ showCpuSet base size cpus = (0, base)) ∨
    (runsOf cpus ≠ [] ∧ (runsText (runsOf cpus)).length < size ∧ showCpuSet base size cpus =
      (((runsText (runsOf cpus)).length : ℤ), base.put (runsText (runsOf cpus)))) ∨
    (size ≤ (runsText (runsOf cpus)).length ∧ (showCpuSet base size cpus).1 = -1 ∧
      ∀ i ≥ size, (showCpuSet base size cpus).2 i = base i) := by
  have hinit : Prints base size ⟨base, 0, size, -1, -1, []⟩ ⟨[], none⟩ := by
    constructor <;> simp [runsText]
  have hloop := hinit.foldlM cpus (List.range cpuSetsize)
  rw [← RunScan.below] at hloop
  unfold showCpuSet runsOf
  generalize RunScan.below cpus cpuSetsize = scan at hloop ⊢
  rcases hloop with ⟨s, hs, h⟩ | ⟨mem, hs, hmem, hfull⟩
  · cases hp : scan.pending with
    | none =>
        have hruns : scan.runs = scan.done := by simp [RunScan.runs, hp]
        have hlast : ¬0 ≤ s.start := by simp [(h.start_of_none hp).1]
        simp only [hs, Except.bind, if_neg hlast, hruns, h.bufp, h.mem]
        by_cases hdone : scan.done = []
        · simp [hdone, runsText]
        · exact .inr (.inl ⟨hdone, h.fits hdone, by rw [if_neg hdone]⟩)
    | some r =>
        have hruns : scan.runs = scan.done ++ [r] := by simp [RunScan.runs, hp]
        have hlast : 0 ≤ s.start := by simp [(h.start_of_some hp).1]
        simp only [hs, Except.bind, if_pos hlast, hruns]
        rcases h.flush hp with ⟨s', hs', hmem, hbufp, -, hfits⟩ | ⟨mem, hs', hmem, hfull⟩
        · simp only [hs', hmem, hbufp]
          exact .inr (.inl ⟨by simp, hfits, trivial⟩)
        · simp only [hs']
          exact .inr (.inr ⟨hfull, trivial, hmem⟩)
  · simp only [hs, Except.bind]
    exact .inr (.inr ⟨hfull, trivial, hmem⟩)

/-! ### The contract -/

theorem isRuns_runsOf {cpus : Finset ℕ} (hcpus : ∀ cpu ∈ cpus, cpu < cpuSetsize) :
    IsRuns (runsOf cpus) cpus :=
  RunScan.isRuns_below hcpus

theorem runsOf_eq_nil_iff {cpus : Finset ℕ} (hcpus : ∀ cpu ∈ cpus, cpu < cpuSetsize) :
    runsOf cpus = [] ↔ cpus = ∅ := by
  have hruns := isRuns_runsOf hcpus
  rw [Finset.eq_empty_iff_forall_notMem]
  constructor
  · intro hnil cpu hcpu
    obtain ⟨r, hr, -⟩ := (hruns.covers cpu).mp hcpu
    rw [hnil] at hr
    cases hr
  · intro hempty
    by_contra hne
    obtain ⟨r, runs, hr⟩ := List.exists_cons_of_ne_nil hne
    have hmem : r ∈ runsOf cpus := by simp [hr]
    exact hempty r.1 ((hruns.covers r.1).mpr ⟨r, hmem, le_rfl, hruns.ordered r hmem⟩)

/-- What a caller may expect of `show_cpu_set` for a set with the given canonical text. -/
structure BufferContract (text : List Char) (base : Memory) (size : ℕ) (result : ℤ × Memory) :
    Prop where
  inside : ∀ i ≥ size, result.2 i = base i
  fits : text.length < size → result.1 = text.length ∧
    (∀ i < text.length, result.2 i = text.getD i '\x00') ∧ result.2 text.length = '\x00'
  full : size ≤ text.length → result.1 = -1

theorem bufferContract_put {text : List Char} {size : ℕ} (base : Memory)
    (h : text.length < size) : BufferContract text base size (text.length, base.put text) := by
  refine ⟨?_, fun _ => ⟨rfl, ?_, ?_⟩, fun hfull => absurd h (not_lt.mpr hfull)⟩
  · intro i hi
    simp only [Memory.put, if_neg (show ¬i < text.length by omega),
      if_neg (show i ≠ text.length by omega)]
  · intro i hi
    simp [Memory.put, hi]
  · simp [Memory.put]

/-- `show_cpu_set` keeps its contract exactly if the set is not empty, or the buffer happened to
start with a NUL. -/
theorem showCpuSet_buffer_iff {cpus : Finset ℕ} (hcpus : ∀ cpu ∈ cpus, cpu < cpuSetsize)
    {size : ℕ} (hsize : 1 ≤ size) (base : Memory) :
    ∃ runs, IsRuns runs cpus ∧
      (BufferContract (runsText runs) base size (showCpuSet base size cpus) ↔
        cpus ≠ ∅ ∨ base 0 = '\x00') := by
  refine ⟨runsOf cpus, isRuns_runsOf hcpus, ?_⟩
  have hnil := runsOf_eq_nil_iff hcpus
  rcases showCpuSet_cases base size cpus with
    ⟨hempty, hshow⟩ | ⟨hne, hfits, hshow⟩ | ⟨hfull, hret, hmem⟩
  · have htext : runsText (runsOf cpus) = [] := by simp [hempty, runsText]
    rw [hshow, htext, hnil.mp hempty]
    simp only [ne_eq, not_true_eq_false, false_or]
    constructor
    · intro h
      exact (h.fits hsize).2.2
    · intro h0
      refine ⟨fun i _ => rfl, fun _ => ⟨rfl, by simp, h0⟩, fun hfull => ?_⟩
      simp at hfull
      omega
  · rw [hshow]
    exact iff_of_true (bufferContract_put base hfits) (.inl (mt hnil.mpr hne))
  · have hne : runsOf cpus ≠ [] := by
      intro hnil
      simp [hnil, runsText] at hfull
      omega
    refine iff_of_true ⟨hmem, fun hfits => ?_, fun _ => hret⟩ (.inl (mt hnil.mpr hne))
    exact absurd hfits (not_lt.mpr hfull)

theorem showCpuSet_buffer_four : ∃ runs, IsRuns runs {0, 1, 2, 5} ∧
    (BufferContract (runsText runs) (fun _ => 'x') 6
        (showCpuSet (fun _ => 'x') 6 {0, 1, 2, 5}) ↔
      ({0, 1, 2, 5} : Finset ℕ) ≠ ∅ ∨ 'x' = '\x00') :=
  showCpuSet_buffer_iff (by decide) (by decide) _

/-- The empty set leaves a buffer without its NUL. -/
theorem showCpuSet_empty_fails : IsRuns [] ∅ ∧
    ¬BufferContract (runsText []) (fun _ => 'x') 8 (showCpuSet (fun _ => 'x') 8 ∅) := by
  refine ⟨⟨by simp, by simp, by simp⟩, fun h => ?_⟩
  have hnil : runsOf ∅ = [] := (runsOf_eq_nil_iff (by simp)).mpr rfl
  have htext : runsText (runsOf ∅) = [] := by simp [hnil, runsText]
  rcases showCpuSet_cases (fun _ => 'x') 8 ∅ with ⟨-, hshow⟩ | ⟨hne, -⟩ | ⟨hfull, -⟩
  · rw [hshow] at h
    have hnul := (h.fits (by simp [runsText])).2.2
    revert hnul
    decide
  · exact hne hnil
  · simp [htext] at hfull

end AutotestClient.CpuSet
