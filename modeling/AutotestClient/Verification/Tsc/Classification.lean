import AutotestClient.Verification.Tsc.Text
import Mathlib.Algebra.Order.BigOperators.Group.List

/-! # How the wrapper classifies a failed run

What `findall` finds in the output are the lines of the printed deltas, so the wrapper is right
about the worst of them; about the threshold it relies on the second word of its arguments. -/

namespace AutotestClient.Tsc

open Shared CheckTsc

/-! ### Matching -/

theorem afterLatency_of_ne {c : Char} (hc : c ≠ 'C') (text : List Char) :
    afterLatency (c :: text) = none := by
  have hnot : ¬"CPU ".toList <+: c :: text := by
    intro h
    exact hc (List.cons_prefix_cons.mp h).1.symm
  simp only [afterLatency, afterText, if_neg hnot]
  rfl

/-- Text without a `C` has no match in it. -/
theorem findLatencies_append_of_notMem {u : List Char} (hu : 'C' ∉ u) (w : List Char) :
    findLatencies 0 (u ++ w) = findLatencies 0 w := by
  induction u with
  | nil => rfl
  | cons c u ih =>
      have hc : c ≠ 'C' := by
        rintro rfl
        exact hu List.mem_cons_self
      rw [List.cons_append, findLatencies, afterLatency_of_ne hc]
      exact ih (List.not_mem_of_not_mem_cons hu)

theorem findLatencies_skip (u w : List Char) :
    findLatencies u.length (u ++ w) = findLatencies 0 w := by
  induction u with
  | nil => rfl
  | cons c u ih => exact ih

theorem findLatencies_append_of_match {u w : List Char} (hne : u ≠ [])
    (h : afterLatency (u ++ w) = some w) :
    findLatencies 0 (u ++ w) = u :: findLatencies 0 w := by
  obtain ⟨c, u, rfl⟩ := List.exists_cons_of_ne_nil hne
  have hlen : (c :: (u ++ w)).length - w.length = u.length + 1 := by
    simp only [List.length_cons, List.length_append]
    omega
  have htake : (c :: (u ++ w)).take (u.length + 1) = c :: u := by simp
  rw [List.cons_append] at h ⊢
  rw [findLatencies, h]
  simp only [hlen, htake, Nat.add_sub_cancel]
  rw [findLatencies_skip]

theorem findLatencies_cons_of_none {c : Char} {w : List Char} (h : afterLatency (c :: w) = none) :
    findLatencies 0 (c :: w) = findLatencies 0 w := by
  rw [findLatencies, h]

/-! ### The lines of the output -/

theorem digits_printInt (n : ℕ) : printInt n ≠ [] ∧ ∀ c ∈ printInt n, isDigitOf 10 c := by
  rw [printInt_natCast]
  exact ⟨Nat.toDigits_ne_nil, mem_toDigits⟩

theorem not_digit_of_head {c : Char} (hc : isDigitOf 10 c = false) (text : List Char) :
    ∀ d ∈ (c :: text).head?, isDigitOf 10 d = false := by
  rintro d ⟨⟩
  exact hc

theorem space_of_mem_blanks (n : ℕ) : ∀ c ∈ List.replicate n ' ', isSpace c := by
  intro c hc
  rw [List.eq_of_mem_replicate hc]
  decide

/-- Behind the `=` there is at least one blank, and the number. -/
theorem deltaLine_eq (pair : ℕ × ℕ) (delta : BitVec 64) :
    ∃ n, deltaLine pair delta = pairText pair ++ (" =".toList ++
      (List.replicate (n + 1) ' ' ++ printInt delta.toInt)) := by
  have hblank (text : List Char) : " = ".toList ++ text = " =".toList ++ ' ' :: text := rfl
  by_cases hneg : delta.toInt < 0
  · refine ⟨5 - (printInt delta.toInt).length, ?_⟩
    rw [deltaLine, printSpaced, if_pos hneg, padLeft, List.append_assoc, hblank,
      List.replicate_succ]
    rfl
  · refine ⟨5 - (' ' :: printInt delta.toInt).length + 1, ?_⟩
    rw [deltaLine, printSpaced, if_neg hneg, padLeft, List.append_assoc, hblank,
      List.replicate_succ, List.replicate_succ']
    simp

theorem head_deltaLine (pair : ℕ × ℕ) (delta : BitVec 64) :
    (deltaLine pair delta).head? = some 'C' := by
  have hC : "CPU ".toList.head? = some 'C' := by decide
  unfold deltaLine pairText
  simp only [List.head?_append, hC, Option.some_or]

/-- After the first pair of a header only a second number is missing. -/
theorem afterLatency_pairText (pair : ℕ × ℕ) (text : List Char)
    (htext : ∀ c ∈ text.head?, isDigitOf 10 c = false) :
    afterLatency (pairText pair ++ text) = (do
      let text ← afterText " =".toList text
      let text ← afterSome isSpace text
      afterSome (isDigitOf 10) (text.dropWhile (· = '-'))) := by
  obtain ⟨hne1, hdig1⟩ := digits_printInt pair.1
  obtain ⟨hne2, hdig2⟩ := digits_printInt pair.2
  have hdash : ∀ c ∈ (" - CPU ".toList ++ (printInt pair.2 ++ text)).head?,
      isDigitOf 10 c = false := not_digit_of_head (by decide) _
  have hassoc : pairText pair ++ text = "CPU ".toList ++ (printInt pair.1 ++
      (" - CPU ".toList ++ (printInt pair.2 ++ text))) := by
    unfold pairText
    simp only [List.append_assoc]
  rw [afterLatency, hassoc, afterText_append]
  simp only [Option.bind_eq_bind, Option.bind_some]
  rw [afterSome_append hne1 hdig1 hdash]
  simp only [Option.bind_some]
  rw [afterText_append]
  simp only [Option.bind_some]
  rw [afterSome_append hne2 hdig2 htext]
  rfl

theorem afterLatency_deltaLine (pair : ℕ × ℕ) (delta : BitVec 64) {rest : List Char}
    (hrest : ∀ c ∈ rest.head?, isDigitOf 10 c = false) :
    afterLatency (deltaLine pair delta ++ rest) = some rest := by
  obtain ⟨n, hline⟩ := deltaLine_eq pair delta
  have hdigits := digits_printInt delta.toInt.natAbs
  rw [printInt_natCast] at hdigits
  have hequals (text : List Char) : ∀ c ∈ (" =".toList ++ text).head?, isDigitOf 10 c = false :=
    not_digit_of_head (by decide) _
  rw [hline, List.append_assoc, List.append_assoc, List.append_assoc,
    afterLatency_pairText pair _ (hequals _), afterText_append]
  simp only [Option.bind_eq_bind, Option.bind_some]
  rw [afterSome_append (by simp) (space_of_mem_blanks _) (not_space_printInt _ rest)]
  simp only [Option.bind_some]
  rw [dropWhile_sign, afterSome_append hdigits.1 hdigits.2 hrest]

/-! ### The matches of the output -/

theorem notMem_printInt (v : ℤ) : 'C' ∉ printInt v :=
  not_mem_printInt (by decide) (by decide) v

/-- Neither of the two texts `CPU` in a header begins a match. -/
theorem findLatencies_header (pair : ℕ × ℕ) (w : List Char) :
    findLatencies 0 (pairText pair ++ '\n' :: w) = findLatencies 0 w := by
  have hfirst : afterLatency (pairText pair ++ '\n' :: w) = none := by
    rw [afterLatency_pairText pair _ (not_digit_of_head (by decide) _)]
    rfl
  have hsecond : afterLatency ("CPU ".toList ++ (printInt pair.2 ++ '\n' :: w)) = none := by
    obtain ⟨hne, hdigits⟩ := digits_printInt pair.2
    rw [afterLatency, afterText_append]
    simp only [Option.bind_eq_bind, Option.bind_some]
    rw [afterSome_append hne hdigits (not_digit_of_head (by decide) _)]
    rfl
  have hsplit : pairText pair ++ '\n' :: w = 'C' :: (("PU ".toList ++ printInt pair.1 ++
      " - ".toList) ++ ("CPU ".toList ++ (printInt pair.2 ++ '\n' :: w))) := by
    have hfirst : "CPU ".toList = 'C' :: "PU ".toList := by decide
    have hsecond : " - CPU ".toList = " - ".toList ++ "CPU ".toList := by decide
    unfold pairText
    simp only [hfirst, hsecond, List.append_assoc, List.cons_append]
  have hrest : "CPU ".toList ++ (printInt pair.2 ++ '\n' :: w) =
      'C' :: (("PU ".toList ++ printInt pair.2 ++ ['\n']) ++ w) := by
    have hfirst : "CPU ".toList = 'C' :: "PU ".toList := by decide
    simp only [hfirst, List.append_assoc, List.cons_append, List.nil_append]
  rw [hsplit] at hfirst ⊢
  rw [findLatencies_cons_of_none hfirst, findLatencies_append_of_notMem]
  · rw [hrest] at hsecond ⊢
    rw [findLatencies_cons_of_none hsecond, findLatencies_append_of_notMem]
    simp [notMem_printInt, -printInt_natCast]
  · simp [notMem_printInt, -printInt_natCast]

theorem notMem_loopLine (i : ℕ) (x : Sample) : 'C' ∉ loopLine i x := by
  unfold loopLine padLeft
  simp [notMem_printInt, -printInt_natCast]

theorem findLatencies_deltaLine (pair : ℕ × ℕ) (delta : BitVec 64) (w : List Char) :
    findLatencies 0 (deltaLine pair delta ++ '\n' :: w) =
      deltaLine pair delta :: findLatencies 0 w := by
  have hmatch := afterLatency_deltaLine pair delta (not_digit_of_head (c := '\n') (by decide) w)
  have hne : deltaLine pair delta ≠ [] := by
    intro hnil
    have hhead := head_deltaLine pair delta
    rw [hnil] at hhead
    cases hhead
  rw [findLatencies_append_of_match hne hmatch,
    findLatencies_cons_of_none (afterLatency_of_ne (by decide) w)]

/-- The pairs whose line is printed, with their deltas. -/
def printed (ms : List Measurement) : List ((ℕ × ℕ) × BitVec 64) :=
  ms.filterMap fun m => m.delta?.map (Prod.mk m.pair)

theorem findLatencies_print {o : Options} (hsilent : o.silent = 0) (m : Measurement)
    (w : List Char) :
    findLatencies 0 (m.print o ++ w) =
      (m.delta?.map (deltaLine m.pair)).toList ++ findLatencies 0 w := by
  have hloops : 'C' ∉ (m.samples.getD []).zipIdx.flatMap fun e => loopLine e.2 e.1 ++ ['\n'] := by
    simp only [List.mem_flatMap, List.mem_append, not_exists, not_and]
    intro e _ hmem
    cases hmem with
    | inl h => exact notMem_loopLine _ _ h
    | inr h => exact absurd h (by decide)
  have hheader (text : List Char) :
      findLatencies 0 ((if o.verbose ≠ 0 then pairText m.pair ++ ['\n'] else []) ++ text) =
        findLatencies 0 text := by
    split_ifs
    · rw [List.append_assoc]
      exact findLatencies_header m.pair text
    · rfl
  have hloop (text : List Char) :
      findLatencies 0 ((if o.verbose ≠ 0 then
        (m.samples.getD []).zipIdx.flatMap fun e => loopLine e.2 e.1 ++ ['\n'] else []) ++ text) =
        findLatencies 0 text := by
    split_ifs
    · exact findLatencies_append_of_notMem hloops text
    · rfl
  rw [Measurement.print, if_pos hsilent, List.append_assoc, List.append_assoc, hheader, hloop]
  cases m.delta? with
  | none => rfl
  | some delta =>
      rw [Option.map_some, Option.getD_some, List.append_assoc]
      exact findLatencies_deltaLine m.pair delta w

theorem findLatencies_flatMap {o : Options} (hsilent : o.silent = 0) (ms : List Measurement)
    (w : List Char) :
    findLatencies 0 (ms.flatMap (Measurement.print o) ++ w) =
      (printed ms).map (fun e => deltaLine e.1 e.2) ++ findLatencies 0 w := by
  induction ms with
  | nil => rfl
  | cons m ms ih =>
      rw [List.flatMap_cons, List.append_assoc, findLatencies_print hsilent, ih]
      cases hdelta : m.delta? with
      | none => simp [printed, hdelta]
      | some delta => simp [printed, hdelta]

/-- The wrapper finds the lines of the deltas, all of them and nothing else. -/
theorem findLatencies_stdout {o : Options} (hsilent : o.silent = 0) (ms : List Measurement) :
    findLatencies 0 (checktsc o ms).stdout = (printed ms).map fun e => deltaLine e.1 e.2 := by
  rw [checktsc, findLatencies_flatMap hsilent, if_pos hsilent]
  have hend : findLatencies 0 (if errs o ms ≠ 0 then "FAIL\n".toList else "PASS\n".toList) = [] := by
    split_ifs
    · decide
    · decide
  rw [hend, List.append_nil]

/-! ### Reading the delta back -/

theorem pyDigits_toDigits (n : ℕ) : pyDigits (Nat.toDigits 10 n) = some n := by
  rw [pyDigits, if_pos ⟨Nat.toDigits_ne_nil, List.all_eq_true.mpr mem_toDigits⟩,
    digitsValue_toDigits (by decide) (by decide)]

theorem pyStrip_blanks_printInt (n : ℕ) (v : ℤ) :
    pyStrip isSpace (List.replicate n ' ' ++ printInt v) = printInt v := by
  have hhead := not_space_printInt v []
  rw [List.append_nil] at hhead
  have hlast : ∀ c ∈ (printInt v).reverse.head?, isSpace c = false := by
    intro c hc
    have hmem := List.mem_reverse.mp (List.mem_of_mem_head? hc)
    cases mem_printInt hmem with
    | inl h => rw [h]; decide
    | inr h => exact not_space_of_digit h
  have hdrop := (takeWhile_append_of_head (u := []) (by simp) hlast).2
  rw [List.nil_append] at hdrop
  rw [pyStrip, (takeWhile_append_of_head (space_of_mem_blanks n) hhead).2, hdrop, List.reverse_reverse]

theorem pyInt_blanks_printInt (n : ℕ) (v : ℤ) :
    pyInt (List.replicate n ' ' ++ printInt v) = some v := by
  obtain ⟨c, ds, hds⟩ := List.exists_cons_of_ne_nil (Nat.toDigits_ne_nil (b := 10) (n := v.natAbs))
  have hc : isDigitOf 10 c := mem_toDigits c (hds ▸ List.mem_cons_self)
  have hvalue := pyDigits_toDigits v.natAbs
  rw [pyInt, pyStrip_blanks_printInt, printInt_eq]
  split_ifs with hneg
  · have habs : -(v.natAbs : ℤ) = v := by omega
    rw [List.singleton_append]
    simp only [hvalue, Option.map_some, habs]
  · have habs : (v.natAbs : ℤ) = v := by omega
    rw [List.nil_append, hds]
    -- the text begins with a digit, so neither sign is there
    split
    · next h => exact absurd (List.cons.inj h).1 (ne_of_digit hc (by decide))
    · next h => exact absurd (List.cons.inj h).1 (ne_of_digit hc (by decide))
    · rw [← hds, hvalue, Option.map_some, habs]

theorem lineDelta_deltaLine (pair : ℕ × ℕ) (delta : BitVec 64) :
    lineDelta (deltaLine pair delta) = some delta.toInt := by
  obtain ⟨n, hline⟩ := deltaLine_eq pair delta
  have hsplit : deltaLine pair delta = (pairText pair ++ [' ']) ++
      '=' :: (List.replicate (n + 1) ' ' ++ printInt delta.toInt) := by
    rw [hline]
    simp
  have hnumber (v : ℤ) : '=' ∉ printInt v := not_mem_printInt (by decide) (by decide) v
  rw [lineDelta, hsplit, List.splitOn_append_cons_self_of_not_mem, List.splitOn_eq_singleton]
  · exact pyInt_blanks_printInt _ _
  · simp [hnumber, -printInt_natCast]
  · unfold pairText
    simp [hnumber, -printInt_natCast]

/-! ### The worst line -/

/-- The loop keeps the first line with the largest delta, once one is above where it starts. -/
theorem worstLatency_spec (es : List ((ℕ × ℕ) × BitVec 64)) :
    ∀ start : ℤ × List Char,
      ∃ worst, worstLatency (es.map fun e => deltaLine e.1 e.2) start = some worst ∧
        start.1 ≤ worst.1 ∧ (∀ e ∈ es, |e.2.toInt| ≤ worst.1) ∧
        (worst = start ∨ ∃ e ∈ es, start.1 < |e.2.toInt| ∧
          worst = (|e.2.toInt|, deltaLine e.1 e.2)) := by
  induction es with
  | nil =>
      intro start
      exact ⟨start, rfl, le_rfl, by simp, Or.inl rfl⟩
  | cons e es ih =>
      intro start
      rw [List.map_cons, worstLatency, lineDelta_deltaLine]
      by_cases he : start.1 < |e.2.toInt|
      · obtain ⟨worst, hrun, hge, hall, hfrom⟩ := ih (|e.2.toInt|, deltaLine e.1 e.2)
        refine ⟨worst, ?_, he.le.trans hge, List.forall_mem_cons.mpr ⟨hge, hall⟩, Or.inr ?_⟩
        · simpa [he] using hrun
        · cases hfrom with
          | inl h => exact ⟨e, List.mem_cons_self, he, h⟩
          | inr h =>
              obtain ⟨e', hmem, hlt, h⟩ := h
              exact ⟨e', List.mem_cons_of_mem e hmem, he.trans hlt, h⟩
      · obtain ⟨worst, hrun, hge, hall, hfrom⟩ := ih start
        have hle : |e.2.toInt| ≤ worst.1 := (not_lt.mp he).trans hge
        refine ⟨worst, ?_, hge, List.forall_mem_cons.mpr ⟨hle, hall⟩, ?_⟩
        · simpa [he] using hrun
        · cases hfrom with
          | inl h => exact Or.inl h
          | inr h =>
              obtain ⟨e', hmem, hlt, h⟩ := h
              exact Or.inr ⟨e', List.mem_cons_of_mem e hmem, hlt, h⟩

/-! ### The outcome -/

theorem fail_suffix_pyStrip (text : List Char) :
    "FAIL".toList <:+ pyStrip (· = '\n') (text ++ "FAIL\n".toList) := by
  have hdrop : ∃ w, (text ++ "FAIL\n".toList).dropWhile (· = '\n') = w ++ "FAIL\n".toList := by
    rw [List.dropWhile_append]
    split_ifs
    · exact ⟨[], by decide⟩
    · exact ⟨_, rfl⟩
  obtain ⟨w, hw⟩ := hdrop
  refine ⟨w, ?_⟩
  rw [pyStrip, hw, List.reverse_append]
  simp

/-- A run with these arguments that prints `FAIL`, and a pair above the threshold in force.
`shell` is how the shell makes words of the arguments. -/
structure FailedRun (shell : List Char → List (List Char)) (args : List Char) (o : Options)
    (ms : List Measurement) : Prop where
  accepted : checktscOptions (shell args) = some o
  shown : o.silent = 0
  failed : errs o ms ≠ 0
  above : ∃ e ∈ printed ms, o.threshold < |e.2.toInt|

/-- `TestFail`, with the line of a printed pair that has the largest delta. -/
def NamesWorst (ms : List Measurement) (outcome : Outcome) : Prop :=
  ∃ e ∈ printed ms, (∀ e' ∈ printed ms, |e'.2.toInt| ≤ |e.2.toInt|) ∧
    ∃ threshold, outcome = .testFail (latencyReason (deltaLine e.1 e.2) threshold)

/-- The second word of the arguments is a number below a printed delta, and not all deltas
are 0. -/
def SecondWordBelow (args : List Char) (ms : List Measurement) : Prop :=
  ∃ word v, (pySplit args)[1]? = some word ∧ pyInt word = some v ∧
    ∃ e ∈ printed ms, v < |e.2.toInt| ∧ e.2.toInt ≠ 0

/-- When `run_once` finds the reason of a failure. -/
theorem runOnce_eq_testFail_iff {o : Options} {ms : List Measurement} (hsilent : o.silent = 0)
    (hfail : errs o ms ≠ 0) (srcdir args reason : List Char) :
    runOnce srcdir args (checktsc o ms) = .testFail reason ↔
      ∃ word v, (pySplit args)[1]? = some word ∧ pyInt word = some v ∧
        ∃ worst, worstLatency ((printed ms).map fun e => deltaLine e.1 e.2) (0, []) = some worst ∧
          v < worst.1 ∧ latencyReason worst.2 v = reason := by
  have hexit : (checktsc o ms).exitStatus = 1 := if_pos hfail
  have hend : "FAIL".toList <:+ pyStrip (· = '\n') (checktsc o ms).stdout := by
    rw [checktsc, if_pos hsilent, if_pos hfail]
    exact fail_suffix_pyStrip _
  obtain ⟨worst, hworst, -⟩ := worstLatency_spec (printed ms) (0, [])
  rw [runOnce, findLatencies_stdout hsilent, hworst, if_neg (by simp [hexit]),
    if_pos ⟨hexit, hend⟩]
  cases (pySplit args)[1]? with
  | none => simp
  | some word =>
      cases hv : pyInt word with
      | none => simp [hv]
      | some v =>
          by_cases hlt : v < worst.1
          · simp [hv, hlt]
          · simp [hv, hlt]

theorem latencyReason_nil_ne {line : List Char} (hline : line.head? = some 'C')
    (v threshold : ℤ) : latencyReason [] v ≠ latencyReason line threshold := by
  have hspace : " exceeds threshold ".toList.head? = some ' ' := by decide
  intro h
  unfold latencyReason at h
  simp only [List.append_assoc, List.append_cancel_left_eq, List.nil_append] at h
  have hhead := congrArg List.head? h
  rw [List.head?_append, List.head?_append, hline, hspace] at hhead
  exact absurd hhead (by simp)

/-- The wrapper agrees with the program exactly where the second word of its arguments does. -/
theorem run_once_names_worst_iff (shell : List Char → List (List Char)) (srcdir args : List Char)
    (o : Options) (ms : List Measurement) (h : FailedRun shell args o ms) :
    NamesWorst ms (runOnce srcdir args (checktsc o ms)) ↔ SecondWordBelow args ms := by
  have htestFail := runOnce_eq_testFail_iff h.shown h.failed srcdir args
  obtain ⟨worst, hworst, -, hall, hfrom⟩ := worstLatency_spec (printed ms) (0, [])
  constructor
  · intro hnames
    obtain ⟨e, -, -, threshold, hout⟩ := hnames
    obtain ⟨word, v, hword, hv, worst', hworst', hlt, hreason⟩ := (htestFail _).mp hout
    rw [hworst] at hworst'
    cases hworst'
    cases hfrom with
    | inl hstart =>
        -- no line was ever taken, and the reason without one is not that of a line
        rw [hstart] at hreason
        exact absurd hreason (latencyReason_nil_ne (head_deltaLine _ _) _ _)
    | inr hline =>
        obtain ⟨e', hmem, hpos, rfl⟩ := hline
        exact ⟨word, v, hword, hv, e', hmem, hlt, abs_pos.mp hpos⟩
  · intro hsecond
    obtain ⟨word, v, hword, hv, e, hmem, hlt, hne⟩ := hsecond
    have hpos : 0 < worst.1 := (abs_pos.mpr hne).trans_le (hall e hmem)
    have hbelow : v < worst.1 := hlt.trans_le (hall e hmem)
    cases hfrom with
    | inl hstart =>
        rw [hstart] at hpos
        exact absurd hpos (lt_irrefl 0)
    | inr hline =>
        obtain ⟨e', hmem', -, rfl⟩ := hline
        refine ⟨e', hmem', hall, v, (htestFail _).mpr ?_⟩
        exact ⟨word, v, hword, hv, _, hworst, hbelow, rfl⟩

/-- Two CPUs that are 905 ticks apart in every exchange. -/
def apart : List Measurement :=
  [⟨(0, 1), some (List.replicate numIters ⟨1000, 1910, 1010⟩)⟩,
    ⟨(1, 0), some (List.replicate numIters ⟨1000, 100, 1010⟩)⟩]

theorem mem_printed_apart : ((1, 0), 905) ∈ printed apart := by decide +kernel

theorem run_once_names_worst_default :
    FailedRun pySplit "-t 650".toList { defaultOptions with threshold := 650 } apart ∧
      NamesWorst apart
        (runOnce "src".toList "-t 650".toList
          (checktsc { defaultOptions with threshold := 650 } apart)) := by
  have hrun : FailedRun pySplit "-t 650".toList { defaultOptions with threshold := 650 } apart := by
    exact ⟨by rfl, rfl, by decide +kernel, _, mem_printed_apart, by decide⟩
  refine ⟨hrun, (run_once_names_worst_iff _ _ _ _ _ hrun).mpr ?_⟩
  exact ⟨"650".toList, 650, by decide +kernel, by decide +kernel, _, mem_printed_apart, by decide⟩

/-- With another option in front the wrapper takes `-t` for the threshold. -/
theorem run_once_fails_option_order :
    FailedRun pySplit "-v -t 650".toList { defaultOptions with threshold := 650, verbose := 1 }
        apart ∧
      runOnce "src".toList "-v -t 650".toList
        (checktsc { defaultOptions with threshold := 650, verbose := 1 } apart) = .valueError ∧
      ¬NamesWorst apart
        (runOnce "src".toList "-v -t 650".toList
          (checktsc { defaultOptions with threshold := 650, verbose := 1 } apart)) := by
  have hout : runOnce "src".toList "-v -t 650".toList
      (checktsc { defaultOptions with threshold := 650, verbose := 1 } apart) = .valueError := by
    decide +kernel
  refine ⟨⟨by rfl, rfl, by decide +kernel, _, mem_printed_apart, by decide⟩, hout, ?_⟩
  rw [hout]
  rintro ⟨e, -, -, threshold, h⟩
  cases h

end AutotestClient.Tsc
