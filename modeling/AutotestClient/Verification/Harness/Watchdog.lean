import AutotestClient.Model.Harness.Watchdog
import AutotestClient.Shared.Digits

/-! # What the watchdog kills

The pattern asks for a character after the number. The parent's number is the last thing on a row,
so that only the row of the watched process itself can be selected. -/

namespace AutotestClient.Harness

open Shared

variable {word ds rest : List Char} {c : Char} {n pid : ℕ} {w : Columns}
  {fails : List Char → Bool} {p : Process} {table : List Process}

/-! ## Numbers in a row -/

theorem decimal_ne_nil (n : ℕ) : decimal n ≠ [] := Nat.toDigits_ne_nil

theorem digit_decimal (n : ℕ) : ∀ d ∈ decimal n, isDigitOf 10 d := mem_toDigits

theorem decimal_injective : Function.Injective decimal := by
  intro m n h
  have hvalue := congrArg (digitsValue 10) h
  rwa [decimal, decimal, digitsValue_toDigits (by decide) (by decide),
    digitsValue_toDigits (by decide) (by decide)] at hvalue

theorem notBlank_decimal (n : ℕ) : ∀ d ∈ decimal n, isBlank d = false := by
  intro d hd
  have hdigit := digit_decimal n d hd
  rw [isBlank, Bool.or_eq_false_iff, Bool.or_eq_false_iff]
  exact ⟨⟨decide_eq_false (ne_of_digit hdigit (by decide)),
    decide_eq_false (ne_of_digit hdigit (by decide))⟩,
    decide_eq_false (ne_of_digit hdigit (by decide))⟩

/-- A number with what is around it: blanks before it, and nothing or another character after. -/
theorem readFields_line (w : Columns) (m n : ℕ) :
    readFields isBlank 1 (w.line (decimal m) (decimal n)) = [decimal m, decimal n] := by
  have hgap {k : ℕ} : ∀ c ∈ List.replicate k ' ', isBlank c := by
    intro c hc
    rw [List.eq_of_mem_replicate hc]
    rfl
  rw [Columns.line, List.leftpad, List.append_assoc, readFields_succ hgap (decimal_ne_nil m)
    (notBlank_decimal m) (by simp [isBlank])]
  rw [List.leftpad, ← List.cons_append, readFields_zero _ (notBlank_decimal n)]
  exact List.forall_mem_cons.mpr ⟨rfl, hgap⟩

/-! ## The pattern -/

theorem grepPid_digit (hc : isDigitOf 10 c) : grepPid word (c :: rest) = grepPid word rest := by
  simp [grepPid, matchesHere, hc]

/-- No match begins inside a number. -/
theorem grepPid_digits (hds : ∀ d ∈ ds, isDigitOf 10 d) :
    grepPid word (ds ++ rest) = grepPid word rest := by
  induction ds with
  | nil => rfl
  | cons d ds ih =>
      rw [List.forall_mem_cons] at hds
      rw [List.cons_append, grepPid_digit hds.1, ih hds.2]

/-- Between two blanks there is no number. -/
theorem grepPid_blanks (hne : word ≠ []) (hword : ∀ d ∈ word, isDigitOf 10 d) (k : ℕ) :
    grepPid word (List.replicate k ' ' ++ ' ' :: rest) = grepPid word (' ' :: rest) := by
  induction k with
  | zero => rfl
  | succ k ih =>
      obtain ⟨d, ds, rfl⟩ := List.exists_cons_of_ne_nil hne
      have hd : d ≠ ' ' := ne_of_digit (hword d List.mem_cons_self) (by decide)
      have hnext : (List.replicate k ' ' ++ ' ' :: rest).head? = some ' ' := by
        cases k <;> rfl
      obtain ⟨tail, htail⟩ := List.head?_eq_some_iff.mp hnext
      rw [List.replicate_succ, List.cons_append, grepPid, ih, matchesHere, htail]
      simp [hd]

/-- A number at the end of the line is not found. -/
theorem matchesHere_last (hds : ∀ d ∈ ds, isDigitOf 10 d) :
    matchesHere word (c :: ds) = false := by
  have hnext : (ds.drop word.length).head?.any (!isDigitOf 10 ·) = false := by
    cases hhead : (ds.drop word.length).head? with
    | none => rfl
    | some d =>
        have hd := hds d (List.mem_of_mem_drop (List.mem_of_mem_head? hhead))
        simp [hd]
  rw [matchesHere, hnext, Bool.and_false]

/-- Before another character only the number itself is found. -/
theorem eq_of_matchesHere {e : Char} (hword : ∀ d ∈ word, isDigitOf 10 d)
    (hds : ∀ d ∈ ds, isDigitOf 10 d) (he : isDigitOf 10 e = false)
    (h : matchesHere word (c :: (ds ++ e :: rest))) : ds = word := by
  simp only [matchesHere, Bool.and_eq_true] at h
  obtain ⟨⟨-, hfront⟩, hnext⟩ := h
  rw [List.isPrefixOf_iff_prefix] at hfront
  obtain ⟨tail, htail⟩ := hfront
  rw [← htail, List.drop_left] at hnext
  have hdigits : (word ++ tail).takeWhile (isDigitOf 10) = word := by
    refine (takeWhile_append_of_head hword ?_).1
    intro d hd
    rw [Option.mem_def.mp hd] at hnext
    simpa using hnext
  have hdigits' : (ds ++ e :: rest).takeWhile (isDigitOf 10) = ds :=
    (takeWhile_append_of_head hds (by simpa using he)).1
  rw [← hdigits', ← htail, hdigits]

/-- Only the row of the watched process can be selected. -/
theorem pid_of_grepPid (h : grepPid (decimal pid) (w.line (decimal p.pid) (decimal p.ppid))) :
    p.pid = pid := by
  have hblank : isDigitOf 10 ' ' = false := by decide
  have hlast : grepPid (decimal pid)
      (' ' :: (decimal p.ppid).leftpad w.ppid ' ') = false := by
    have hnil : grepPid (decimal pid) (decimal p.ppid) = false := by
      have h : grepPid (decimal pid) (decimal p.ppid ++ []) = grepPid (decimal pid) [] :=
        grepPid_digits (digit_decimal p.ppid)
      rwa [List.append_nil] at h
    rw [List.leftpad, ← List.cons_append, ← List.replicate_succ, List.replicate_succ',
      List.append_assoc, List.singleton_append,
      grepPid_blanks (decimal_ne_nil pid) (digit_decimal pid), grepPid,
      matchesHere_last (digit_decimal p.ppid), hnil]
    rfl
  rw [Columns.line, List.leftpad, List.append_assoc] at h
  cases hk : w.pid - (decimal p.pid).length with
  | zero =>
      rw [hk, List.replicate_zero, List.nil_append, grepPid_digits (digit_decimal p.pid),
        hlast] at h
      cases h
  | succ k =>
      rw [hk, List.replicate_succ', List.append_assoc, List.singleton_append,
        grepPid_blanks (decimal_ne_nil pid) (digit_decimal pid), grepPid,
        grepPid_digits (digit_decimal p.pid), hlast, Bool.or_false] at h
      exact decimal_injective
        (eq_of_matchesHere (digit_decimal pid) (digit_decimal p.pid) hblank h)

theorem mem_of_grepPid {d : Char} {ds line : List Char} (h : grepPid (d :: ds) line) :
    d ∈ line := by
  induction line with
  | nil => cases h
  | cons c line ih =>
      rw [grepPid, Bool.or_eq_true] at h
      rcases h with h | h
      · simp only [matchesHere, Bool.and_eq_true] at h
        have hfront := List.isPrefixOf_iff_prefix.mp h.1.2
        exact List.mem_cons_of_mem c (hfront.subset List.mem_cons_self)
      · exact List.mem_cons_of_mem c (ih h)

theorem grepPid_header (w : Columns) (pid : ℕ) :
    grepPid (decimal pid) (w.line "PID".toList "PPID".toList) = false := by
  obtain ⟨d, ds, hword⟩ := List.exists_cons_of_ne_nil (decimal_ne_nil pid)
  have hd : isDigitOf 10 d := digit_decimal pid d (by rw [hword]; exact List.mem_cons_self)
  rw [hword, Bool.eq_false_iff]
  intro h
  have hmem := mem_of_grepPid h
  have hnone : "PID PPID".toList.all fun c => !isDigitOf 10 c := by decide
  have hheader : d ∈ "PID PPID".toList := by
    simp [Columns.line, List.leftpad] at hmem ⊢
    tauto
  have hnot := List.all_eq_true.mp hnone d hheader
  simp [hd] at hnot

/-- The selected lines are rows of the watched process. -/
theorem exists_of_mem_selected {row : List Char}
    (h : row ∈ (ps w table).filter (grepPid (decimal pid))) :
    ∃ p ∈ table, p.pid = pid ∧ row = w.line (decimal p.pid) (decimal p.ppid) := by
  obtain ⟨hrow, hgrep⟩ := List.mem_filter.mp h
  rcases List.mem_cons.mp hrow with rfl | hrow
  · rw [grepPid_header] at hgrep
    cases hgrep
  · obtain ⟨p, hp, rfl⟩ := List.mem_map.mp hrow
    exact ⟨p, hp, pid_of_grepPid hgrep, rfl⟩

/-! ## Signals -/

/-- A signal is sent to the process with this number. -/
def Sends (events : List Event) (q : ℕ) : Prop :=
  .kill (decimal q) ∈ events ∨ .kill9 (decimal q) ∈ events

theorem sends_append {events events' : List Event} {q : ℕ} :
    Sends (events ++ events') q ↔ Sends events q ∨ Sends events' q := by
  simp only [Sends, List.mem_append]
  tauto

theorem sends_killHard_iff {q : ℕ} : Sends (killHard fails (decimal n)) q ↔ q = n := by
  rw [killHard]
  split_ifs <;> simp [Sends, decimal_injective.eq_iff]

theorem sends_killed_iff {q : ℕ} {text : List Char} :
    Sends (killHard fails (decimal n) ++ [.echo text]) q ↔ q = n := by
  rw [sends_append, sends_killHard_iff]
  simp [Sends]

/-- What the loop over the selected rows sends goes to the watched process. -/
theorem eq_of_sends_children {q : ℕ}
    (h : Sends (((ps w table).filter (grepPid (decimal pid))).flatMap
      (killChild fails (decimal pid))) q) : q = pid := by
  have hround : ∃ row ∈ (ps w table).filter (grepPid (decimal pid)),
      Sends (killChild fails (decimal pid) row) q := by
    simp only [Sends, List.mem_flatMap] at h
    rcases h with ⟨row, hrow, h⟩ | ⟨row, hrow, h⟩
    · exact ⟨row, hrow, .inl h⟩
    · exact ⟨row, hrow, .inr h⟩
  obtain ⟨row, hrow, hsends⟩ := hround
  obtain ⟨p, -, rfl, rfl⟩ := exists_of_mem_selected hrow
  rw [killChild, readFields_line] at hsends
  dsimp only at hsends
  split_ifs at hsends with hppid
  · exact sends_killed_iff.mp hsends
  · simp [Sends] at hsends

/-- The watched process and its children get signals, no others do, and the watched process gets
one after all of its children. -/
structure KillsExactly (events : List Event) (pid : ℕ) (table : List Process) : Prop where
  children : ∀ p ∈ table, p.pid ≠ pid → (Sends events p.pid ↔ p.ppid = pid)
  only : ∀ q, Sends events q → q = pid ∨ ∃ p ∈ table, p.pid = q
  last : ∃ before after, events = before ++ .kill (decimal pid) :: after ∧
    ∀ q, Sends after q → q = pid

theorem sends_watchdogScript_iff {q : ℕ} :
    Sends (watchdogScript false w fails pid table) q ↔ q = pid := by
  rw [watchdogScript, List.append_assoc, sends_append, sends_killed_iff]
  exact or_iff_right_of_imp eq_of_sends_children

theorem watchdogScript_last :
    ∃ before after, watchdogScript false w fails pid table =
        before ++ .kill (decimal pid) :: after ∧ ∀ q, Sends after q → q = pid := by
  have hkill : ∃ after, killHard fails (decimal pid) = .kill (decimal pid) :: after := by
    rw [killHard]
    split_ifs
    · exact ⟨_, rfl⟩
    · exact ⟨_, rfl⟩
  obtain ⟨after, hafter⟩ := hkill
  let children := ((ps w table).filter (grepPid (decimal pid))).flatMap
    (killChild fails (decimal pid))
  let text := "watchdog killed testcase process ".toList ++ decimal pid
  have hscript : watchdogScript false w fails pid table =
      children ++ (killHard fails (decimal pid) ++ [.echo text]) := List.append_assoc _ _ _
  refine ⟨children, after ++ [.echo text], by rw [hscript, hafter, List.cons_append], ?_⟩
  intro q hq
  have hq' : Sends (killHard fails (decimal pid) ++ [.echo text]) q := by
    rw [hafter, ← List.singleton_append, List.append_assoc, sends_append]
    exact .inr hq
  exact sends_killed_iff.mp hq'

/-- The watchdog does what it is for only if there is no child to kill. -/
theorem watchdogScript_killsExactly_iff :
    KillsExactly (watchdogScript false w fails pid table) pid table ↔
      ∀ p ∈ table, p.ppid = pid → p.pid = pid := by
  constructor
  · intro h p hp hppid
    by_contra hne
    exact hne (sends_watchdogScript_iff.mp ((h.children p hp hne).mpr hppid))
  · intro h
    constructor
    · intro p hp hne
      rw [sends_watchdogScript_iff]
      exact ⟨fun hpid => absurd hpid hne, fun hppid => h p hp hppid⟩
    · intro q hq
      exact .inl (sends_watchdogScript_iff.mp hq)
    · exact watchdogScript_last

/-- A testcase 4711 with one child 4712, and columns of five characters: the row of the child
ends in `4711` and is not selected. -/
theorem watchdogScript_spares_child :
    watchdogScript false ⟨5, 5⟩ (fun _ => false) 4711 [⟨1, 0⟩, ⟨4711, 1⟩, ⟨4712, 4711⟩] =
        [.kill "4711".toList, .echo "watchdog killed testcase process 4711".toList] ∧
      ¬KillsExactly
        (watchdogScript false ⟨5, 5⟩ (fun _ => false) 4711 [⟨1, 0⟩, ⟨4711, 1⟩, ⟨4712, 4711⟩])
        4711 [⟨1, 0⟩, ⟨4711, 1⟩, ⟨4712, 4711⟩] := by
  refine ⟨by decide +kernel, fun h => ?_⟩
  have hchild := (h.children ⟨4712, 4711⟩ (by simp) (by simp)).mpr rfl
  exact absurd (sends_watchdogScript_iff.mp hchild) (by decide)

end AutotestClient.Harness
