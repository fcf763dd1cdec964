import AutotestClient.Model.Aiostress
import AutotestClient.Shared.Except
import AutotestClient.Verification.Tsc.Text

/-! # The rates of the stages

Every line after the header is split at its parentheses, so one line of another kind is enough to
lose all results, or to add one that is none. -/

namespace AutotestClient.Aiostress

open Shared
open Tsc (mem_pyStrip pyStrip pyStrip_concat pyStrip_isInfix)

/-! ## Reports -/

/-- A number as it is printed. -/
def IsNumber (t : Text) : Prop := t ≠ [] ∧ ∀ c ∈ t, isSpace c = false ∧ c ≠ '(' ∧ c ≠ ')'

/-- `<stage> (<rate> MB/s) <n> MB in <t>s`. -/
structure Stage where
  name : Text
  rate : Text
  amount : Text
  time : Text
  eol : Text
  name_line : '\n' ∉ name
  rate_number : IsNumber rate
  amount_number : IsNumber amount
  time_number : IsNumber time
  eol_newline : eol = ['\n'] ∨ eol = []

def Stage.line (s : Stage) : Text :=
  s.name ++ (" (".toList ++ (s.rate ++ (" MB/s) ".toList ++ (s.amount ++ (" MB in ".toList ++
    (s.time ++ ('s' :: s.eol)))))))

/-- The name with blanks as underscores. -/
def Stage.key (s : Stage) : Text := keyOf s.name

/-- A line after the header. -/
inductive Item where
  | stage (s : Stage)
  | other (line : Text) (h : ∀ s : Stage, line ≠ s.line)

def Item.line : Item → Text
  | .stage s => s.line
  | .other line _ => line

def Item.stage? : Item → Option Stage
  | .stage s => some s
  | .other _ _ => none

structure Report where
  preamble : List Text
  header : Text
  items : List Item
  preamble_other : ∀ line ∈ preamble, isHeader line = false
  header_isHeader : isHeader header

def Report.lines (r : Report) : List Text := r.preamble ++ r.header :: r.items.map Item.line

def Report.stages (r : Report) : List Stage := r.items.filterMap Item.stage?

/-- The rate of the last line of a stage. -/
def Report.lastRate (r : Report) (key : Text) : Option Text :=
  ((r.stages.filter fun s => s.key = key).getLast?).map Stage.rate

/-- The key-values are the last rates of the stages, and there are no others. -/
def Lossless (r : Report) : Prop :=
  ∃ keyval, formatResults r.lines = .ok keyval ∧ ∀ key, keyval.lookup key = r.lastRate key

/-! ## Splitting a line -/

/-- What is in front of the first closing parenthesis. -/
def part (line : Text) : Text := line.takeWhile (· ≠ ')')

/-- What is behind the first opening one, up to the first closing one. -/
def inside (line : Text) : Text := ((part line).dropWhile (· ≠ '(')).tail

/-- The text in front of the first opening parenthesis, and the first word behind it. -/
def entryOf (line : Text) : Text × Text :=
  (keyOf ((part line).takeWhile (· ≠ '(')), (words isSpace (inside line)).headD [])

/-- There is one opening parenthesis, and a word behind it. -/
structure Splits (line : Text) : Prop where
  once : (part line).count '(' = 1
  word : words isSpace (inside line) ≠ []

/-- The two parts around the first opening parenthesis. -/
theorem part_append {line u v : Text} (hpart : part line = u ++ '(' :: v) (hu : '(' ∉ u) :
    entryOf line = (keyOf u, (words isSpace v).headD []) ∧ inside line = v ∧
      (part line).count '(' = v.count '(' + 1 := by
  obtain ⟨htake, hdrop⟩ := takeWhile_ne_append (v := v) hu
  have hinside : inside line = v := by rw [inside, hpart, hdrop, List.tail_cons]
  refine ⟨?_, hinside, ?_⟩
  · rw [entryOf, hinside, hpart, htake]
  · rw [hpart, List.count_append, List.count_cons_self, List.count_eq_zero.mpr hu, Nat.zero_add]

theorem lineEntry_eq_ok_iff {line : Text} {e : Text × Text} :
    lineEntry line = .ok e ↔ Splits line ∧ e = entryOf line := by
  by_cases hmem : '(' ∈ part line
  · obtain ⟨u, v, hpart, hu⟩ := List.eq_append_cons_of_mem hmem
    obtain ⟨hentry, hinside, hcount⟩ := part_append hpart hu
    by_cases hv : '(' ∈ v
    · obtain ⟨u', v', rfl, hu'⟩ := List.eq_append_cons_of_mem hv
      obtain ⟨x, xs, hrest⟩ := List.exists_cons_of_ne_nil (List.splitOn_ne_nil '(' v')
      have hparts : (part line).splitOn '(' = u :: u' :: x :: xs := by
        rw [hpart, List.splitOn_append_cons_self, List.splitOn_append_cons_self,
          List.splitOn_eq_singleton hu, List.splitOn_eq_singleton hu', hrest]
        rfl
      refine iff_of_false ?_ ?_
      · rw [lineEntry, ← part, hparts]
        simp
      · rintro ⟨⟨honce, -⟩, -⟩
        rw [hcount, List.count_append, List.count_cons_self] at honce
        omega
    · have hparts : (part line).splitOn '(' = [u, v] := by
        rw [hpart, List.splitOn_append_cons_self, List.splitOn_eq_singleton hu,
          List.splitOn_eq_singleton hv]
        rfl
      have honce : (part line).count '(' = 1 := by rw [hcount, List.count_eq_zero.mpr hv]
      cases hwords : words isSpace v with
      | nil =>
          refine iff_of_false ?_ (fun h => h.1.word (by rw [hinside, hwords]))
          rw [lineEntry, ← part, hparts]
          simp [hwords]
      | cons word ws =>
          have hsplits : Splits line := ⟨honce, by simp [hinside, hwords]⟩
          rw [lineEntry, ← part, hparts, hentry]
          simp only [List.headD_cons, Except.ok.injEq, hwords]
          exact ⟨fun h => ⟨hsplits, h.symm⟩, fun h => h.2.symm⟩
  · have hparts : (part line).splitOn '(' = [part line] := List.splitOn_eq_singleton hmem
    refine iff_of_false ?_ ?_
    · rw [lineEntry, ← part, hparts]
      simp
    · rintro ⟨⟨honce, -⟩, -⟩
      rw [List.count_eq_zero.mpr hmem] at honce
      cases honce

/-! ## Keys -/

theorem mem_keyOf_iff {c : Char} (hspace : isSpace c = false) (hc : c ≠ '_') {text : Text} :
    c ∈ keyOf text ↔ c ∈ text := by
  have hblank : c ≠ ' ' := by
    rintro rfl
    cases hspace
  rw [keyOf, List.mem_map]
  constructor
  · rintro ⟨d, hd, heq⟩
    split_ifs at heq
    · exact absurd heq.symm hc
    · exact heq ▸ (pyStrip_isInfix isSpace text).subset hd
  · intro hmem
    exact ⟨c, mem_pyStrip hspace hmem, if_neg hblank⟩

/-- No parenthesis is part of a key. -/
theorem not_mem_entryOf (line : Text) : '(' ∉ (entryOf line).1 ∧ ')' ∉ (entryOf line).1 := by
  constructor
  · intro hmem
    rw [entryOf, mem_keyOf_iff (by decide) (by decide)] at hmem
    simpa using List.mem_takeWhile_imp hmem
  · intro hmem
    rw [entryOf, mem_keyOf_iff (by decide) (by decide)] at hmem
    have hpart := (List.takeWhile_prefix _).subset hmem
    simpa using List.mem_takeWhile_imp hpart

/-- A stage whose name has no parenthesis is read as it is meant. -/
theorem Stage.splits {s : Stage} (hopen : '(' ∉ s.name) (hclose : ')' ∉ s.name) :
    Splits s.line ∧ entryOf s.line = (s.key, s.rate) := by
  obtain ⟨hne, hrate⟩ := s.rate_number
  have hunit : ∀ c ∈ " MB/s".toList, c ≠ '(' ∧ c ≠ ')' := by simp
  have hpart : part s.line = (s.name ++ [' ']) ++ '(' :: (s.rate ++ " MB/s".toList) := by
    have hline : s.line = ((s.name ++ [' ']) ++ '(' :: (s.rate ++ " MB/s".toList)) ++
        ')' :: ' ' :: (s.amount ++ (" MB in ".toList ++ (s.time ++ ('s' :: s.eol)))) := by
      simp [Stage.line]
    rw [part, hline]
    refine (takeWhile_ne_append fun hc => ?_).1
    simp only [List.mem_append, List.mem_cons, List.not_mem_nil, or_false] at hc
    rcases hc with (hc | hc) | hc | hc | hc
    · exact hclose hc
    · cases hc
    · cases hc
    · exact (hrate _ hc).2.2 rfl
    · exact (hunit _ hc).2 rfl
  have hfront : '(' ∉ s.name ++ [' '] := by simpa using hopen
  have hback : '(' ∉ s.rate ++ " MB/s".toList := by
    intro hc
    rcases List.mem_append.mp hc with hc | hc
    · exact (hrate _ hc).2.1 rfl
    · exact (hunit _ hc).1 rfl
  obtain ⟨hentry, hinside, hcount⟩ := part_append hpart hfront
  have hwords : words isSpace (s.rate ++ " MB/s".toList) =
      s.rate :: words isSpace "MB/s".toList := by
    show words isSpace (s.rate ++ ' ' :: "MB/s".toList) = _
    rw [words_append_cons _ _ (by decide), words_of_forall hne fun c hc => (hrate c hc).1]
    rfl
  refine ⟨⟨?_, ?_⟩, ?_⟩
  · rw [hcount, List.count_eq_zero.mpr hback]
  · rw [hinside, hwords]
    exact List.cons_ne_nil _ _
  · rw [hentry, hwords, keyOf, pyStrip_concat (by decide)]
    rfl

/-! ## The condition -/

/-- No stage has a parenthesis in its name, every other line has exactly one opening parenthesis in
front of its first closing one and a word behind it, and what is stored for it is stored again by a
later line or is the last rate of a stage. -/
structure Extractable (r : Report) : Prop where
  names : ∀ s ∈ r.stages, '(' ∉ s.name ∧ ')' ∉ s.name
  others : ∀ line h, Item.other line h ∈ r.items → Splits line
  replaced : ∀ u line h w, r.items = u ++ Item.other line h :: w →
    (∃ y ∈ w, (entryOf y.line).1 = (entryOf line).1) ∨
      r.lastRate (entryOf line).1 = some (entryOf line).2

theorem formatResults_lines (r : Report) :
    formatResults r.lines = (do
      let entries ← (r.items.map Item.line).mapM lineEntry
      .ok (insertAll entries ∅)) := by
  have hdrop : r.lines.dropWhile (!isHeader ·) = r.header :: r.items.map Item.line := by
    refine (takeWhile_append_of_head (fun line hline => ?_) ?_).2
    · simp [r.preamble_other line hline]
    · simp [r.header_isHeader]
  rw [formatResults, hdrop, List.tail_cons]

theorem formatResults_eq_ok_iff {r : Report} {keyval : Keyval} :
    formatResults r.lines = .ok keyval ↔
      (∀ x ∈ r.items, Splits x.line) ∧
        keyval = insertAll (r.items.map fun x => entryOf x.line) ∅ := by
  have hmapM (hsplits : ∀ x ∈ r.items, Splits x.line) :
      (r.items.map Item.line).mapM lineEntry = .ok (r.items.map fun x => entryOf x.line) := by
    have hentries := mapM_eq_ok_map (f := lineEntry) (g := entryOf)
        (l := r.items.map Item.line) <| by
      rw [List.forall_mem_map]
      exact fun x hx => lineEntry_eq_ok_iff.mpr ⟨hsplits x hx, rfl⟩
    rw [hentries, List.map_map]
    rfl
  rw [formatResults_lines]
  constructor
  · intro h
    obtain ⟨entries, hentries, h⟩ := bind_eq_ok h
    obtain rfl := Except.ok.inj h
    have hsplits : ∀ x ∈ r.items, Splits x.line := by
      intro x hx
      obtain ⟨e, he⟩ := exists_mapM_eq_ok_iff.mp ⟨entries, hentries⟩ x.line (List.mem_map_of_mem hx)
      exact (lineEntry_eq_ok_iff.mp he).1
    rw [hmapM hsplits] at hentries
    exact ⟨hsplits, by rw [Except.ok.inj hentries]⟩
  · rintro ⟨hsplits, rfl⟩
    rw [hmapM hsplits]
    rfl

/-- The entries of the stages. -/
theorem map_entryOf_stages {items : List Item}
    (hnames : ∀ s ∈ items.filterMap Item.stage?, '(' ∉ s.name ∧ ')' ∉ s.name) :
    (items.filter fun x => x.stage?.isSome).map (fun x => entryOf x.line) =
      (items.filterMap Item.stage?).map fun s => (s.key, s.rate) := by
  induction items with
  | nil => rfl
  | cons x items ih =>
      cases x with
      | stage s =>
          have hcons : (Item.stage s :: items).filterMap Item.stage? =
              s :: items.filterMap Item.stage? := rfl
          rw [hcons, List.forall_mem_cons] at hnames
          rw [hcons, List.filter_cons_of_pos rfl, List.map_cons, List.map_cons, ih hnames.2]
          exact congrArg (· :: _) (Stage.splits hnames.1.1 hnames.1.2).2
      | other line h => exact ih hnames

theorem lastRate_eq {r : Report} (hnames : ∀ s ∈ r.stages, '(' ∉ s.name ∧ ')' ∉ s.name)
    (key : Text) :
    r.lastRate key = (insertAll ((r.items.filter fun x => x.stage?.isSome).map
      fun x => entryOf x.line) ∅).lookup key := by
  rw [map_entryOf_stages hnames, lookup_insertAll, List.filter_map, List.getLast?_map,
    Option.map_map]
  rfl

/-- Every stage has a rate. -/
theorem exists_lastRate {r : Report} {s : Stage} (hs : s ∈ r.stages) :
    ∃ rate, r.lastRate s.key = some rate := by
  have hmem : s ∈ r.stages.filter fun s' => s'.key = s.key := by simpa using hs
  have hlast := List.getLast?_eq_some_getLast (List.ne_nil_of_mem hmem)
  exact ⟨_, by rw [Report.lastRate, hlast]; rfl⟩

theorem lossless_iff (r : Report) : Lossless r ↔ Extractable r := by
  constructor
  · rintro ⟨keyval, hok, hlookup⟩
    obtain ⟨hsplits, rfl⟩ := formatResults_eq_ok_iff.mp hok
    have hnames : ∀ s ∈ r.stages, '(' ∉ s.name ∧ ')' ∉ s.name := by
      intro s hs
      obtain ⟨rate, hrate⟩ := exists_lastRate hs
      rw [← hlookup, lookup_insertAll_eq_some_iff_last] at hrate
      obtain ⟨u, w, heq, -⟩ := hrate
      have hmem : (s.key, rate) ∈ r.items.map fun x => entryOf x.line := by simp [heq]
      obtain ⟨x, -, hx⟩ := List.mem_map.mp hmem
      have hkey := not_mem_entryOf x.line
      rw [hx] at hkey
      rwa [Stage.key, mem_keyOf_iff (by decide) (by decide),
        mem_keyOf_iff (by decide) (by decide)] at hkey
    refine ⟨hnames, fun line h hmem => hsplits _ hmem, fun u line h w hitems => ?_⟩
    rw [lastRate_eq hnames]
    exact (lookup_insertAll_filter_iff _ _ r.items).mp
      (fun key => by rw [hlookup, lastRate_eq hnames]) u (.other line h) w hitems rfl
  · intro h
    have hsplits : ∀ x ∈ r.items, Splits x.line := by
      intro x hx
      cases x with
      | stage s =>
          obtain ⟨hopen, hclose⟩ := h.names s (List.mem_filterMap.mpr ⟨_, hx, rfl⟩)
          exact (Stage.splits hopen hclose).1
      | other line hother => exact h.others line hother hx
    refine ⟨_, formatResults_eq_ok_iff.mpr ⟨hsplits, rfl⟩, fun key => ?_⟩
    rw [lastRate_eq h.names]
    refine (lookup_insertAll_filter_iff _ _ r.items).mpr (fun u x w hitems hx => ?_) key
    cases x with
    | stage s => cases hx
    | other line hother =>
        rw [← lastRate_eq h.names]
        exact h.replaced u line hother w hitems

/-! ## A line about latencies -/

/-- `write on poo (245.77 MB/s) 1024.00 MB in 4.17s`. -/
def writeStage : Stage where
  name := "write on poo".toList
  rate := "245.77".toList
  amount := "1024.00".toList
  time := "4.17".toList
  eol := ['\n']
  name_line := by decide
  rate_number := ⟨by decide, by simp [isSpace]⟩
  amount_number := ⟨by decide, by simp [isSpace]⟩
  time_number := ⟨by decide, by simp [isSpace]⟩
  eol_newline := .inl rfl

def latencyLine : Text := "latency min 0.01 avg 0.05 max 3.20\n".toList

/-- A stage line has a parenthesis. -/
theorem latencyLine_other (s : Stage) : latencyLine ≠ s.line := by
  intro heq
  have hmem : '(' ∈ s.line := by simp [Stage.line]
  rw [← heq] at hmem
  revert hmem
  decide

/-- A stage, and the latencies that are printed with `-l`. -/
def latencyReport : Report where
  preamble := ["file size 1024MB, record size 64KB, depth 64, ios per iteration 8\n".toList]
  header := "threads 1 files 1 contexts 1 context offset 2MB verification off\n".toList
  items := [.stage writeStage, .other latencyLine latencyLine_other]
  preamble_other := List.forall_mem_singleton.mpr (by decide +kernel)
  header_isHeader := by decide +kernel

theorem latencyReport_not_lossless : ¬Lossless latencyReport := by
  rintro ⟨keyval, hok, -⟩
  have hsplits := (formatResults_eq_ok_iff.mp hok).1 (.other latencyLine latencyLine_other)
    (by simp [latencyReport])
  have honce := hsplits.once
  revert honce
  decide

end AutotestClient.Aiostress
