import AutotestClient.Model.Libvirt
import AutotestClient.Shared.Words

/-! # The tests of a block

A line is taken for the header of the wanted block if it is the name of the item and any one
character more. The first such line decides which lines are returned. -/

namespace AutotestClient.Libvirt

open Shared (exists_first_separator exists_of_words_eq_cons flatten_words isSpace linesOf
  mem_words_iff takeWhile_append_of_head words)
open Tsc (pyStrip)

variable {isTest : Text → Bool} {item : Text} {flag : Bool}

/-! ## What a file says -/

/-- The lines that are not comments, without the white space around them. -/
def entries (cfg : Text) : List Text :=
  ((linesOf '\n' cfg).map (pyStrip isSpace)).filter (!isComment ·)

/-- An item with its tests. -/
structure Block where
  item : Text
  tests : List Text

def Block.lines (b : Block) : List Text := (b.item ++ [':']) :: b.tests

/-- Blank lines separate the blocks of the file. -/
def HasBlocks (cfg : Text) (blocks : List Block) : Prop :=
  words List.isEmpty (entries cfg) = blocks.map Block.lines

/-- The tests of the block of an item. -/
def wanted (isTest : Text → Bool) (item : Text) (blocks : List Block) : List Text :=
  match blocks.find? fun b => b.item = item with
  | none => []
  | some b => b.tests.filter isTest

/-! ## The loop -/

/-- The loop on lines that are not comments. -/
def readEntries (isTest : Text → Bool) (item : Text) (flag : Bool) : List Text → List Text
  | [] => []
  | line :: lines =>
      if !flag && line.isEmpty then readEntries isTest item flag lines
      else if looksLikeHeader item line then readEntries isTest item true lines
      else if flag && line.isEmpty then []
      else if flag && isTest line then line :: readEntries isTest item flag lines
      else readEntries isTest item flag lines

theorem readTests_eq (lines : List Text) :
    readTests isTest item flag lines =
      readEntries isTest item flag ((lines.map (pyStrip isSpace)).filter (!isComment ·)) := by
  induction lines generalizing flag with
  | nil => rfl
  | cons line lines ih =>
      rw [readTests, List.map_cons, List.filter_cons]
      cases hcomment : isComment (pyStrip isSpace line) with
      | true => simp [ih]
      | false =>
          simp only [Bool.not_false, if_true, readEntries, ih]
          rfl

/-- A test that is not taken for a header. -/
def keeps (isTest : Text → Bool) (item line : Text) : Bool :=
  isTest line && !looksLikeHeader item line

theorem readEntries_false_append {u : List Text}
    (hu : ∀ l ∈ u, l = [] ∨ looksLikeHeader item l = false) (rest : List Text) :
    readEntries isTest item false (u ++ rest) = readEntries isTest item false rest := by
  induction u with
  | nil => rfl
  | cons l u ih =>
      rw [List.forall_mem_cons] at hu
      rw [List.cons_append, readEntries, ih hu.2]
      rcases hu.1 with rfl | hl
      · simp
      · simp [hl]

theorem readEntries_false_cons {l : Text} (hne : l ≠ []) (hl : looksLikeHeader item l)
    (rest : List Text) :
    readEntries isTest item false (l :: rest) = readEntries isTest item true rest := by
  simp [readEntries, hne, hl]

theorem readEntries_true (lines : List Text) :
    readEntries isTest item true lines =
      (lines.takeWhile fun l => !l.isEmpty || looksLikeHeader item l).filter
        (keeps isTest item) := by
  induction lines with
  | nil => rfl
  | cons l lines ih =>
      rw [readEntries, ih, List.takeWhile_cons]
      cases hl : looksLikeHeader item l
      · cases hempty : l.isEmpty
        · cases htest : isTest l <;> simp [keeps, hl, htest]
        · simp
      · simp [keeps, hl]

/-- The lines behind the block that are read for an item without a name, for which a blank line
looks like a header as well. -/
def later (item : Text) (blocks : List Block) : List Text :=
  if item = [] then blocks.flatMap Block.lines else []

theorem takeWhile_block {v s rest : List Text} {blocks : List Block}
    (hv : ∀ l ∈ v, l.isEmpty = false) (hs : ∀ l ∈ s, l.isEmpty) (hnil : s = [] → rest = [])
    (hrest : words List.isEmpty rest = blocks.map Block.lines) :
    ((v ++ (s ++ rest)).takeWhile fun l => !l.isEmpty || looksLikeHeader item l).filter
        (keeps isTest item) = (v ++ later item blocks).filter (keeps isTest item) := by
  by_cases hitem : item = []
  · subst hitem
    -- every blank line looks like a header, so that nothing ends the block
    have hblank : ∀ l : Text, l.isEmpty → looksLikeHeader [] l := by
      intro l hl
      rw [List.isEmpty_iff.mp hl]
      rfl
    have hall : ∀ l ∈ v ++ (s ++ rest), (!l.isEmpty || looksLikeHeader [] l) = true := by
      intro l _
      cases hl : l.isEmpty
      · rfl
      · simp [hblank l hl]
    have hs' : s.filter (keeps isTest []) = [] := by
      rw [List.filter_eq_nil_iff]
      intro l hl
      simp [keeps, hblank l (hs l hl)]
    have hrest' : rest.filter (keeps isTest []) =
        (blocks.flatMap Block.lines).filter (keeps isTest []) := by
      rw [List.flatMap_def, ← hrest, flatten_words, List.filter_filter]
      apply List.filter_congr
      intro l _
      cases hl : l.isEmpty
      · simp
      · simp [keeps, hblank l hl]
    rw [List.takeWhile_eq_self_iff.mpr hall, later, if_pos rfl, List.filter_append,
      List.filter_append, List.filter_append, hs', hrest', List.nil_append]
  · have hend : ∀ l ∈ (s ++ rest).head?, (!l.isEmpty || looksLikeHeader item l) = false := by
      intro l hl
      cases s with
      | nil =>
          rw [hnil rfl] at hl
          cases hl
      | cons d s =>
          obtain rfl := Option.some.inj hl
          have hd := List.isEmpty_iff.mp (hs d List.mem_cons_self)
          simp [hd, looksLikeHeader, hitem]
    rw [(takeWhile_append_of_head (fun l hl => by simp [hv l hl]) hend).1, later, if_neg hitem,
      List.append_nil]

theorem forall_blank {s : List Text} (hs : ∀ l ∈ s, l.isEmpty) :
    ∀ l ∈ s, l = [] ∨ looksLikeHeader item l = false :=
  fun l hl => .inl (List.isEmpty_iff.mp (hs l hl))

/-- The first line that looks like the header decides what is returned. -/
theorem readEntries_of_blocks {lines u v : List Text} {l : Text} {before after : List Block}
    {b : Block} (hblocks : words List.isEmpty lines = (before ++ b :: after).map Block.lines)
    (hbefore : ∀ b' ∈ before, ∀ x ∈ b'.lines, looksLikeHeader item x = false)
    (hb : b.lines = u ++ l :: v) (hu : ∀ x ∈ u, looksLikeHeader item x = false)
    (hl : looksLikeHeader item l) :
    readEntries isTest item false lines = (v ++ later item after).filter (keeps isTest item) := by
  induction before generalizing lines with
  | nil =>
      obtain ⟨s₀, s, rest, rfl, hs₀, hlines, hs, hnil, hrest⟩ := exists_of_words_eq_cons hblocks
      rw [hb] at hlines ⊢
      rw [List.forall_mem_append, List.forall_mem_cons] at hlines
      have hne : l ≠ [] := by simpa using hlines.2.1
      rw [readEntries_false_append (forall_blank hs₀), List.append_assoc,
        readEntries_false_append fun x hx => .inr (hu x hx), List.cons_append,
        readEntries_false_cons hne hl, readEntries_true]
      exact takeWhile_block hlines.2.2 hs hnil hrest
  | cons b' before ih =>
      obtain ⟨s₀, s, rest, rfl, hs₀, hlines, hs, hnil, hrest⟩ := exists_of_words_eq_cons hblocks
      rw [List.forall_mem_cons] at hbefore
      rw [readEntries_false_append (forall_blank hs₀),
        readEntries_false_append fun x hx => .inr (hbefore.1 x hx),
        readEntries_false_append (forall_blank hs)]
      exact ih hrest hbefore.2

theorem readEntries_eq_nil {lines : List Text} {blocks : List Block}
    (hblocks : words List.isEmpty lines = blocks.map Block.lines)
    (h : ∀ b ∈ blocks, ∀ x ∈ b.lines, looksLikeHeader item x = false) :
    readEntries isTest item false lines = [] := by
  have hall : ∀ l ∈ lines, l = [] ∨ looksLikeHeader item l = false := by
    intro l hl
    by_cases hempty : l = []
    · exact .inl hempty
    · have hmem : ∃ w ∈ words List.isEmpty lines, l ∈ w :=
        mem_words_iff.mpr ⟨hl, by simpa using hempty⟩
      rw [hblocks] at hmem
      obtain ⟨w, hw, hlw⟩ := hmem
      obtain ⟨b, hb, rfl⟩ := List.mem_map.mp hw
      exact .inr (h b hb l hlw)
  rw [← List.append_nil lines, readEntries_false_append hall]
  rfl

/-! ## The condition -/

/-- Where the first line that looks like the header is that of the block, no test of the block
looks so, and for an item without a name none follows; where it is a test of some block, the tests
behind it are those that are wanted. -/
def FirstIsHeader (isTest : Text → Bool) (item : Text) (blocks : List Block) : Prop :=
  ∀ before b after u l v, blocks = before ++ b :: after → b.lines = u ++ l :: v →
    (∀ b' ∈ before, ∀ x ∈ b'.lines, looksLikeHeader item x = false) →
    (∀ x ∈ u, looksLikeHeader item x = false) → looksLikeHeader item l →
    if u = [] then
      (∀ x ∈ b.tests, isTest x → looksLikeHeader item x = false) ∧
        ∀ x ∈ later item after, isTest x → looksLikeHeader item x
    else (v ++ later item after).filter (keeps isTest item) = wanted isTest item blocks

theorem looksLikeHeader_header {name : Text} :
    looksLikeHeader item (name ++ [':']) ↔ name = item := by
  rw [looksLikeHeader, List.dropLast_concat, decide_eq_true_eq, eq_comm]

theorem find?_eq_none {blocks : List Block}
    (h : ∀ b ∈ blocks, ∀ x ∈ b.lines, looksLikeHeader item x = false) :
    blocks.find? (fun b => b.item = item) = none := by
  rw [List.find?_eq_none]
  intro b hb hitem
  have hheader := h b hb _ List.mem_cons_self
  rw [looksLikeHeader_header.mpr (by simpa using hitem)] at hheader
  cases hheader

theorem filter_keeps_eq_iff {v rest : List Text} :
    (v ++ rest).filter (keeps isTest item) = v.filter isTest ↔
      (∀ x ∈ v, isTest x → looksLikeHeader item x = false) ∧
        ∀ x ∈ rest, isTest x → looksLikeHeader item x := by
  have hkeeps (h : ∀ x ∈ v, isTest x → looksLikeHeader item x = false) :
      v.filter (keeps isTest item) = v.filter isTest := by
    apply List.filter_congr
    intro x hx
    cases htest : isTest x
    · simp [keeps, htest]
    · simp [keeps, htest, h x hx htest]
  have hrest : rest.filter (keeps isTest item) = [] ↔
      ∀ x ∈ rest, isTest x → looksLikeHeader item x := by
    simp [List.filter_eq_nil_iff, keeps]
  rw [List.filter_append, ← hrest]
  constructor
  · intro h
    have hv : ∀ x ∈ v, isTest x → looksLikeHeader item x = false := by
      intro x hx htest
      have hmem : x ∈ v.filter isTest := List.mem_filter.mpr ⟨hx, htest⟩
      rw [← h, ← List.filter_append] at hmem
      have hkept := (List.mem_filter.mp hmem).2
      simp only [keeps, Bool.and_eq_true, Bool.not_eq_true'] at hkept
      exact hkept.2
    rw [hkeeps hv] at h
    exact ⟨hv, List.append_right_eq_self.mp h⟩
  · rintro ⟨hv, hnone⟩
    rw [hkeeps hv, hnone, List.append_nil]

theorem readEntries_eq_wanted_iff {lines : List Text} {blocks : List Block}
    (hblocks : words List.isEmpty lines = blocks.map Block.lines) :
    readEntries isTest item false lines = wanted isTest item blocks ↔
      FirstIsHeader isTest item blocks := by
  -- what is returned, against what is wanted, at the first line that looks like the header
  have hfirst {before after : List Block} {b : Block} {u v : List Text} {l : Text}
      (hsplit : blocks = before ++ b :: after) (hb : b.lines = u ++ l :: v)
      (hbefore : ∀ b' ∈ before, ∀ x ∈ b'.lines, looksLikeHeader item x = false)
      (hu : ∀ x ∈ u, looksLikeHeader item x = false) (hl : looksLikeHeader item l) :
      readEntries isTest item false lines = wanted isTest item blocks ↔
        if u = [] then
          (∀ x ∈ b.tests, isTest x → looksLikeHeader item x = false) ∧
            ∀ x ∈ later item after, isTest x → looksLikeHeader item x
        else (v ++ later item after).filter (keeps isTest item) = wanted isTest item blocks := by
    rw [readEntries_of_blocks (hsplit ▸ hblocks) hbefore hb hu hl]
    split_ifs with hnil
    · subst hnil
      obtain ⟨rfl, rfl⟩ := List.cons.inj hb
      have hitem := looksLikeHeader_header.mp hl
      have hwanted : wanted isTest item blocks = b.tests.filter isTest := by
        rw [wanted, hsplit, List.find?_append, find?_eq_none hbefore,
          List.find?_cons_of_pos (by simpa using hitem)]
        rfl
      rw [hwanted, filter_keeps_eq_iff]
    · exact Iff.rfl
  constructor
  · intro h before b after u l v hsplit hb hbefore hu hl
    exact (hfirst hsplit hb hbefore hu hl).mp h
  · intro h
    by_cases hlook : ∃ b ∈ blocks, b.lines.any (looksLikeHeader item)
    · obtain ⟨before, b, after, hsplit, hany, hbefore⟩ := exists_first_separator hlook
      obtain ⟨u, l, v, hb, hl, hu⟩ := exists_first_separator (List.any_eq_true.mp hany)
      have hbefore' : ∀ b' ∈ before, ∀ x ∈ b'.lines, looksLikeHeader item x = false := by
        intro b' hb' x hx
        have hnone := hbefore b' hb'
        simp only [List.any_eq_false] at hnone
        simpa using hnone x hx
      exact (hfirst hsplit hb hbefore' hu hl).mpr (h before b after u l v hsplit hb hbefore' hu hl)
    · have hnone : ∀ b ∈ blocks, ∀ x ∈ b.lines, looksLikeHeader item x = false := by
        intro b hb x hx
        rw [← Bool.not_eq_true]
        exact fun hxl => hlook ⟨b, hb, List.any_eq_true.mpr ⟨x, hx, hxl⟩⟩
      rw [readEntries_eq_nil hblocks hnone, wanted, find?_eq_none hnone]

/-- Both functions return the tests of the block that is asked for. -/
def ReturnsBlock (cfg item : Text) (blocks : List Block) : Prop :=
  getTestcases cfg item = wanted startsWithDigit item blocks ∧
    getTestsFromCfg cfg item = wanted isConf item blocks

theorem returnsBlock_iff {cfg : Text} {blocks : List Block} (h : HasBlocks cfg blocks)
    (item : Text) :
    ReturnsBlock cfg item blocks ↔
      FirstIsHeader startsWithDigit item blocks ∧ FirstIsHeader isConf item blocks := by
  rw [ReturnsBlock, getTestcases, getTestsFromCfg, readTests_eq, readTests_eq,
    ← readEntries_eq_wanted_iff h, ← readEntries_eq_wanted_iff h]
  rfl

theorem returnsBlock_domain :
    HasBlocks "domain:\n# a comment\n050-transient-lifecycle.t\n\nstorage:\nstorage_dir.conf\n".toList
        [⟨"domain".toList, ["050-transient-lifecycle.t".toList]⟩,
          ⟨"storage".toList, ["storage_dir.conf".toList]⟩] ∧
      FirstIsHeader startsWithDigit "domain".toList
        [⟨"domain".toList, ["050-transient-lifecycle.t".toList]⟩,
          ⟨"storage".toList, ["storage_dir.conf".toList]⟩] := by
  have h : HasBlocks
      "domain:\n# a comment\n050-transient-lifecycle.t\n\nstorage:\nstorage_dir.conf\n".toList
      [⟨"domain".toList, ["050-transient-lifecycle.t".toList]⟩,
        ⟨"storage".toList, ["storage_dir.conf".toList]⟩] := by
    rw [HasBlocks]
    decide +kernel
  refine ⟨h, ((returnsBlock_iff h "domain".toList).mp ?_).1⟩
  rw [ReturnsBlock]
  decide +kernel

/-- A test of another block that is the name of the item and one letter more. -/
theorem returnsBlock_of_other :
    HasBlocks "hooks:\ndomains\n051-daemon-hook.t\n\ndomain:\n050-transient-lifecycle.t\n".toList
        [⟨"hooks".toList, ["domains".toList, "051-daemon-hook.t".toList]⟩,
          ⟨"domain".toList, ["050-transient-lifecycle.t".toList]⟩] ∧
      ¬ReturnsBlock
        "hooks:\ndomains\n051-daemon-hook.t\n\ndomain:\n050-transient-lifecycle.t\n".toList
        "domain".toList
        [⟨"hooks".toList, ["domains".toList, "051-daemon-hook.t".toList]⟩,
          ⟨"domain".toList, ["050-transient-lifecycle.t".toList]⟩] := by
  rw [HasBlocks, ReturnsBlock]
  decide +kernel

end AutotestClient.Libvirt
