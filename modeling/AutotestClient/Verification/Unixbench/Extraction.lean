import AutotestClient.Verification.Tsc.Text
import AutotestClient.Verification.Unixbench.Lines

/-! # What is extracted from a report

Version 5 notes an unmeasured line and goes on with it, so that it is stored if it has six words.
Both versions store one value for a key. -/

namespace AutotestClient.Unixbench

open Shared (Consistent Faithful faithful_insertAll_iff insertAll insertAll_append insertAll_concat
  isSpace printInt words words_of_separators)
open Tsc (pyStrip pyStrip_eq_nil_iff)

variable {line suffix value score text reportData : Text} {name lines : List Text}

/-! ## The property -/

/-- Every measured line has its entry, and there are no others but the final score. -/
structure Extracts (keyName : List Text → Text) (lines : List Text) (score : Text × Text)
    (keyval : Keyval) : Prop where
  measured : ∀ line ∈ lines, ∀ name value, Measured line name value →
    keyval.lookup (keyName name) = some value
  only : ∀ e : Text × Text, keyval.lookup e.1 = some e.2 → e = score ∨
    ∃ line ∈ lines, ∃ name value, Measured line name value ∧ e = (keyName name, value)

/-- The second part of the text between empty lines is the block, and the third part ends with the
score. -/
structure IsSection (text : Text) (lines : List Text) (score : Text) : Prop where
  parts : ∃ first block last rest, paragraphsFrom [] text = first :: block :: last :: rest ∧
    (pyStrip isSpace block).splitOn '\n' = lines ∧
    (words isSpace (pyStrip isSpace last)).getLast? = some score
  lines : ∀ line ∈ lines, ResultLine line

/-- `process_section` extracts the results and notes the unmeasured lines. -/
structure SectionExtracts (err : List Text) (text suffix : Text) (lines : List Text)
    (score : Text) : Prop where
  keyval : ∃ keyval, (processSection err text suffix).2 = .ok keyval ∧
    Extracts (fun name => keyOf (name.map lower) ++ suffix) lines
      ("score".toList ++ suffix, score) keyval
  noted : ∀ (i : ℕ) line name, lines[i]? = some line → Unmeasured line name →
    printInt (i + 1) ∈ (processSection err text suffix).1
  raises : ∀ line ∈ lines, ∀ name, Unmeasured line name → ∀ reportData,
    ∃ message, cleanup (processSection err text suffix).1 reportData = .error message

/-- The lines up to the first empty one are the block, and the score comes after it. -/
structure IsReport (reportData lines : List Text) (score : Text) : Prop where
  parts : ∃ rest, reportData = lines ++ rest ∧
    (∀ line ∈ rest.head?, pyStrip isSpace line = []) ∧ Four.finalScore? rest = some score
  number : isNumber score
  lines : ∀ line ∈ lines, ResultLine line

/-- `postprocess_iteration` of version 4 extracts the results and notes the unmeasured lines. -/
structure ReportExtracts (err : Option Text) (reportData lines : List Text) (score : Text) :
    Prop where
  keyval : Extracts keyOf lines ("score".toList, score)
    (Four.postprocessIteration err reportData).2
  noted : ∀ line ∈ lines, ∀ name, Unmeasured line name → ∃ message,
    Four.cleanup (Four.postprocessIteration err reportData).1 = .error message ∧
      ['_'].intercalate name <:+: message

/-! ## Writes -/

/-- What is stored, and whether it is a measured value or the final score. -/
structure Write where
  genuine : Bool
  entry : Text × Text
  deriving DecidableEq

/-- What version 5 stores for a line. -/
def write (suffix line : Text) : Option Write :=
  (lineEntry suffix line).map fun e => ⟨!Four.isError (words isSpace line), e⟩

def writes (suffix : Text) (lines : List Text) (score : Text) : List Write :=
  lines.filterMap (write suffix) ++ [⟨true, ("score".toList ++ suffix, score)⟩]

/-- What version 4 stores for a line. -/
def Four.write (line : Text) : Option Write :=
  if Four.isError (words isSpace line) then none
  else (entryOf (words isSpace line)).map fun e => ⟨true, e⟩

def Four.writes (lines : List Text) (score : Text) : List Write :=
  lines.filterMap Four.write ++ [⟨true, ("score".toList, score)⟩]

/-- The entries are right exactly if the dictionary is that of the genuine writes. -/
theorem extracts_iff_faithful {keyName : List Text → Text} {final : Text × Text}
    {xs : List Write} {keyval : Keyval}
    (hxs : ∀ e, (∃ x ∈ xs, x.genuine = true ∧ x.entry = e) ↔ e = final ∨
      ∃ line ∈ lines, ∃ name value, Measured line name value ∧ e = (keyName name, value))
    (hfinal : keyval.lookup final.1 = some final.2) :
    Extracts keyName lines final keyval ↔
      Faithful Write.entry (fun x => x.genuine = true) xs keyval := by
  constructor
  · intro h
    refine ⟨fun x hx hgenuine => ?_, fun k v hlookup => ?_⟩
    · rcases (hxs x.entry).mp ⟨x, hx, hgenuine, rfl⟩ with heq | ⟨line, hline, name, value, hm, heq⟩
      · rw [heq, hfinal]
      · rw [heq]
        exact h.measured line hline name value hm
    · exact (hxs (k, v)).mpr (h.only (k, v) hlookup)
  · intro h
    refine ⟨fun line hline name value hm => ?_, fun e hlookup => ?_⟩
    · obtain ⟨x, hx, hgenuine, heq⟩ := (hxs (keyName name, value)).mpr
        (.inr ⟨line, hline, name, value, hm, rfl⟩)
      have hstored := h.stored x hx hgenuine
      rwa [heq] at hstored
    · exact (hxs e).mp (h.only e.1 e.2 hlookup)

theorem isError_of_unmeasured (h : Unmeasured line name) :
    Four.isError (words isSpace line) = true := by
  rw [words_of_unmeasured h, isError_append, decide_eq_true_eq]

/-- A result line that does not look unmeasured is measured. -/
theorem ResultLine.measured (h : ResultLine line)
    (herror : Four.isError (words isSpace line) = false) :
    ∃ name value, Measured line name value := by
  rcases h with h | ⟨name, hunmeasured⟩
  · exact h
  · rw [isError_of_unmeasured hunmeasured] at herror
    cases herror

/-- The genuine writes of a block, when each measured line is stored under its key. -/
theorem genuine_writes_iff {keyName : List Text → Text} (final : Text × Text)
    {f : Text → Option Write} (hlines : ∀ line ∈ lines, ResultLine line)
    (hmeasured : ∀ line name value, Measured line name value →
      f line = some ⟨true, (keyName name, value)⟩)
    (hgenuine : ∀ line x, f line = some x → x.genuine = true →
      Four.isError (words isSpace line) = false) (e : Text × Text) :
    (∃ x ∈ lines.filterMap f ++ [⟨true, final⟩], x.genuine = true ∧ x.entry = e) ↔ e = final ∨
      ∃ line ∈ lines, ∃ name value, Measured line name value ∧ e = (keyName name, value) := by
  constructor
  · rintro ⟨x, hx, hg, rfl⟩
    rcases List.mem_append.mp hx with hx | hx
    · obtain ⟨line, hline, hwrite⟩ := List.mem_filterMap.mp hx
      obtain ⟨name, value, hm⟩ := (hlines line hline).measured (hgenuine line x hwrite hg)
      rw [hmeasured line name value hm] at hwrite
      obtain rfl := Option.some.inj hwrite
      exact .inr ⟨line, hline, name, value, hm, rfl⟩
    · rw [List.mem_singleton.mp hx]
      exact .inl rfl
  · rintro (rfl | ⟨line, hline, name, value, hm, rfl⟩)
    · exact ⟨_, List.mem_append_right _ (List.mem_singleton_self _), rfl, rfl⟩
    · exact ⟨_, List.mem_append_left _ (List.mem_filterMap.mpr
        ⟨line, hline, hmeasured line name value hm⟩), rfl, rfl⟩

/-! ## Version 5 -/

theorem write_of_measured (h : Measured line name value) :
    write suffix line = some ⟨true, (keyOf (name.map lower) ++ suffix, value)⟩ := by
  rw [write, lineEntry_of_measured h, isError_of_measured h]
  rfl

theorem not_isError_of_write {x : Write} (h : write suffix line = some x)
    (hgenuine : x.genuine = true) : Four.isError (words isSpace line) = false := by
  obtain ⟨e, -, rfl⟩ := Option.map_eq_some_iff.mp h
  simpa using hgenuine

theorem map_entry_writes (suffix : Text) (lines : List Text) (score : Text) :
    (writes suffix lines score).map Write.entry =
      lines.filterMap (lineEntry suffix) ++ [("score".toList ++ suffix, score)] := by
  rw [writes, List.map_append, List.map_filterMap]
  congr 2
  funext line
  rw [write, Option.map_map]
  exact Option.map_id'

theorem processSection_eq (h : IsSection text lines score) (err : List Text) (suffix : Text) :
    processSection err text suffix =
      (err ++ errLines lines, .ok (insertAll ((writes suffix lines score).map Write.entry) ∅)) := by
  obtain ⟨first, block, last, rest, hparts, rfl, hscore⟩ := h.parts
  rw [processSection, hparts, map_entry_writes]
  simp only [hscore]

theorem lower_append (u v : Text) : lower (u ++ v) = lower u ++ lower v := List.map_append

theorem lower_noResults : lower "no measured results".toList = "no measured results".toList := by
  decide +kernel

theorem matchesNoResults_of_unmeasured (h : Unmeasured line name) :
    matchesNoResults line = true := by
  cases h with
  | @intro front tail hfront htail =>
      have heq : lower (front ++ ("no measured results".toList ++ tail)) =
          lower front ++ ("no measured results".toList ++ lower tail) := by
        rw [lower_append, lower_append, lower_noResults]
      have hinside : "no measured results".toList <:+:
          lower front ++ ("no measured results".toList ++ lower tail) :=
        List.infix_append' _ _ _
      exact decide_eq_true (heq ▸ hinside)

theorem mem_errLines {i : ℕ} (hi : lines[i]? = some line) (h : Unmeasured line name) :
    printInt (i + 1) ∈ errLines lines := by
  refine List.mem_map.mpr
    ⟨(line, i), List.mem_filter.mpr ⟨?_, matchesNoResults_of_unmeasured h⟩, rfl⟩
  exact List.mk_mem_zipIdx_iff_getElem?.mpr hi

theorem cleanup_of_mem {err : List Text} {e : Text} (h : e ∈ err) (reportData : Text) :
    ∃ message, cleanup err reportData = .error message := by
  rw [cleanup, if_neg]
  · exact ⟨_, rfl⟩
  · simpa using List.ne_nil_of_mem h

/-- Version 5 extracts the results exactly if its writes are consistent. -/
theorem sectionExtracts_iff (h : IsSection text lines score) (err : List Text) (suffix : Text) :
    SectionExtracts err text suffix lines score ↔
      Consistent Write.entry (fun x => x.genuine = true) (writes suffix lines score) := by
  have hfinal : (insertAll ((writes suffix lines score).map Write.entry) ∅).lookup
      ("score".toList ++ suffix) = some score := by
    rw [map_entry_writes, insertAll_concat]
    exact AList.lookup_insert _
  have hextracts := extracts_iff_faithful (genuine_writes_iff ("score".toList ++ suffix, score)
    h.lines (fun _ _ _ => @write_of_measured _ suffix _ _) fun _ _ => not_isError_of_write) hfinal
  rw [← faithful_insertAll_iff]
  refine Iff.trans ⟨?_, ?_⟩ hextracts
  · rintro ⟨⟨keyval, hok, hkeyval⟩, -, -⟩
    rw [processSection_eq h] at hok
    obtain rfl := Except.ok.inj hok
    exact hkeyval
  · intro hkeyval
    constructor
    · exact ⟨_, by rw [processSection_eq h], hkeyval⟩
    · intro i line name hi hunmeasured
      rw [processSection_eq h]
      exact List.mem_append_right _ (mem_errLines hi hunmeasured)
    · intro line hline name hunmeasured reportData
      obtain ⟨i, hi⟩ := List.mem_iff_getElem?.mp hline
      rw [processSection_eq h]
      exact cleanup_of_mem (List.mem_append_right _ (mem_errLines hi hunmeasured)) reportData

/-! ## Version 4 -/

namespace Four

/-- How a line changes `err`. -/
def noteLine (err : Option Text) (line : Text) : Option Text :=
  if isError (words isSpace line) then record err (words isSpace line) else err

theorem ResultLine.ne_blank (h : ResultLine line) : pyStrip isSpace line ≠ [] := by
  intro hblank
  have hnil : words isSpace line = [] := words_of_separators (pyStrip_eq_nil_iff.mp hblank)
  rcases h with ⟨name, value, hm⟩ | ⟨name, hu⟩
  · obtain ⟨unit, t, s, k, -, hwords⟩ := hm.words
    rw [hnil] at hwords
    simp at hwords
  · rw [words_of_unmeasured hu] at hnil
    simp at hnil

theorem readLines_append {rest : List Text} (hlines : ∀ line ∈ lines, ResultLine line)
    (hrest : ∀ line ∈ rest.head?, pyStrip isSpace line = []) (err : Option Text)
    (keyval : Keyval) :
    readLines (lines ++ rest) err keyval =
      (lines.foldl noteLine err, insertAll ((lines.filterMap write).map Write.entry) keyval) := by
  induction lines generalizing err keyval with
  | nil =>
      cases rest with
      | nil => rfl
      | cons line rest =>
          rw [List.nil_append, readLines, hrest line rfl]
          rfl
  | cons line lines ih =>
      rw [List.forall_mem_cons] at hlines
      have hblank : (pyStrip isSpace line).isEmpty = false := by
        simpa using ResultLine.ne_blank hlines.1
      rw [List.cons_append, readLines, hblank, List.foldl_cons, noteLine]
      cases herror : isError (words isSpace line) with
      | true =>
          have hwrite : write line = none := by rw [write, if_pos herror]
          simp only [Bool.false_eq_true, if_false, if_true, ih hlines.2,
            List.filterMap_cons_none hwrite]
      | false =>
          simp only [Bool.false_eq_true, if_false, ih hlines.2]
          cases hentry : entryOf (words isSpace line) with
          | none =>
              have hwrite : write line = none := by simp [write, herror, hentry]
              rw [List.filterMap_cons_none hwrite]
              rfl
          | some e =>
              have hwrite : write line = some ⟨true, e⟩ := by simp [write, herror, hentry]
              rw [List.filterMap_cons_some hwrite]
              rfl

/-! ### The errors -/

theorem record_append (err : Option Text) (name : List Text) (a b c : Text) :
    ∃ message, record err (name ++ [a, b, c]) = some message ∧
      ['_'].intercalate name <:+: message := by
  have hlength : (name ++ [a, b, c]).length = name.length + 3 := by simp
  have hname : (name ++ [a, b, c]).take ((name ++ [a, b, c]).length - 3) = name := by
    rw [hlength, Nat.add_sub_cancel, List.take_left]
  cases err with
  | none => exact ⟨_, rfl, by rw [hname]⟩
  | some err =>
      refine ⟨_, rfl, ?_⟩
      rw [hname]
      exact ((List.suffix_cons ' ' _).trans (List.suffix_append _ _)).isInfix

theorem exists_record (err : Text) (ws : List Text) :
    ∃ message, record (some err) ws = some message ∧ err <:+: message :=
  ⟨_, rfl, (List.prefix_append _ _).isInfix⟩

/-- What is noted stays in the message. -/
theorem exists_foldl_noteLine (lines : List Text) (err : Text) :
    ∃ message, lines.foldl noteLine (some err) = some message ∧ err <:+: message := by
  induction lines generalizing err with
  | nil => exact ⟨err, rfl, List.infix_rfl⟩
  | cons line lines ih =>
      rw [List.foldl_cons, noteLine]
      split_ifs
      · obtain ⟨message, hrecord, hinside⟩ := exists_record err (words isSpace line)
        obtain ⟨message', hfold, hinside'⟩ := ih message
        rw [hrecord]
        exact ⟨message', hfold, hinside.trans hinside'⟩
      · exact ih err

theorem foldl_noteLine_of_mem (hline : line ∈ lines) (h : Unmeasured line name)
    (err : Option Text) :
    ∃ message, lines.foldl noteLine err = some message ∧ ['_'].intercalate name <:+: message := by
  induction lines generalizing err with
  | nil => cases hline
  | cons line' lines ih =>
      rw [List.foldl_cons]
      rcases List.mem_cons.mp hline with rfl | hline
      · have hnote : noteLine err line = record err (words isSpace line) :=
          if_pos (isError_of_unmeasured h)
        rw [hnote, words_of_unmeasured h]
        obtain ⟨message, hrecord, hinside⟩ := record_append err name "no".toList "measured".toList
          "results".toList
        obtain ⟨message', hfold, hinside'⟩ := exists_foldl_noteLine lines message
        rw [hrecord]
        exact ⟨message', hfold, hinside.trans hinside'⟩
      · exact ih hline _

/-! ### The score -/

theorem finalScore?_append_of_forall {rest : List Text}
    (h : ∀ line ∈ lines, ¬"FINAL SCORE".toList <:+: line) :
    finalScore? (lines ++ rest) = finalScore? rest := by
  have hnone : lines.find? (fun line => decide ("FINAL SCORE".toList <:+: line)) = none := by
    rw [List.find?_eq_none]
    intro line hline hscore
    exact h line hline (of_decide_eq_true hscore)
  rw [finalScore?, finalScore?, List.find?_append, hnone, Option.none_or]

/-- The last word of a result line is no number. -/
theorem ResultLine.last_not_number (h : ResultLine line) :
    ∃ word, (words isSpace line).getLast? = some word ∧ isNumber word = false := by
  rcases h with ⟨name, value, hm⟩ | ⟨name, hu⟩
  · obtain ⟨unit, t, s, k, -, hwords⟩ := hm.words
    exact ⟨"samples)".toList, by rw [hwords]; simp, by decide⟩
  · exact ⟨"results".toList, by rw [words_of_unmeasured hu]; simp, by decide⟩

theorem finalScore?_of_mem {rest : List Text} (hlines : ∀ line ∈ lines, ResultLine line)
    (hline : line ∈ lines) (h : "FINAL SCORE".toList <:+: line) :
    ∃ word, finalScore? (lines ++ rest) = some word ∧ isNumber word = false := by
  have hsome : (lines.find? fun line => decide ("FINAL SCORE".toList <:+: line)).isSome := by
    rw [List.find?_isSome]
    exact ⟨line, hline, decide_eq_true h⟩
  obtain ⟨line', hfind⟩ := Option.isSome_iff_exists.mp hsome
  obtain ⟨word, hlast, hnumber⟩ := ResultLine.last_not_number
    (hlines line' (List.mem_of_find?_eq_some hfind))
  refine ⟨word, ?_, hnumber⟩
  rw [finalScore?, List.find?_append, hfind, Option.some_or, Option.bind_some, hlast]

/-! ### The results -/

theorem write_of_measured (h : Measured line name value) :
    write line = some ⟨true, (keyOf name, value)⟩ := by
  obtain ⟨unit, t, s, k, -, hwords⟩ := h.words
  rw [write, isError_of_measured h, hwords, entryOf_append]
  rfl

theorem not_isError_of_write {x : Write} (h : write line = some x) :
    isError (words isSpace line) = false := by
  by_contra herror
  rw [Bool.not_eq_false] at herror
  rw [write, if_pos herror] at h
  cases h

/-- Version 4 extracts the results exactly if the score is not taken from the block and its writes
are consistent. -/
theorem reportExtracts_iff {reportData : List Text} (h : IsReport reportData lines score)
    (err : Option Text) :
    ReportExtracts err reportData lines score ↔
      (∀ line ∈ lines, ¬"FINAL SCORE".toList <:+: line) ∧
        Consistent Write.entry (fun x => x.genuine = true) (writes lines score) := by
  obtain ⟨rest, rfl, hrest, hscore⟩ := h.parts
  have hread := readLines_append h.lines hrest err ∅
  have hnoted : ∀ line ∈ lines, ∀ name, Unmeasured line name → ∃ message,
      cleanup (postprocessIteration err (lines ++ rest)).1 = .error message ∧
        ['_'].intercalate name <:+: message := by
    intro line hline name hunmeasured
    obtain ⟨message, hfold, hinside⟩ := foldl_noteLine_of_mem hline hunmeasured err
    refine ⟨message, ?_, hinside⟩
    rw [postprocessIteration, hread, hfold]
    rfl
  have hkeyval (word : Text) (hword : finalScore? (lines ++ rest) = some word) :
      (postprocessIteration err (lines ++ rest)).2 =
        insertAll ((writes lines word).map Write.entry) ∅ := by
    rw [postprocessIteration, hread, hword, writes, List.map_append, insertAll_append]
    rfl
  have hfinal (word : Text) : (insertAll ((writes lines word).map Write.entry) ∅).lookup
      "score".toList = some word := by
    rw [writes, List.map_append, List.map_cons, List.map_nil, insertAll_concat]
    exact AList.lookup_insert _
  have hiff (hnone : ∀ line ∈ lines, ¬"FINAL SCORE".toList <:+: line) :
      Extracts keyOf lines ("score".toList, score)
          (postprocessIteration err (lines ++ rest)).2 ↔
        Consistent Write.entry (fun x => x.genuine = true) (writes lines score) := by
    rw [hkeyval score (by rw [finalScore?_append_of_forall hnone, hscore]),
      ← faithful_insertAll_iff]
    exact extracts_iff_faithful (genuine_writes_iff ("score".toList, score) h.lines
      (fun _ _ _ => write_of_measured) fun _ _ hwrite _ => not_isError_of_write hwrite)
      (hfinal score)
  constructor
  · intro hextracts
    have hnone : ∀ line ∈ lines, ¬"FINAL SCORE".toList <:+: line := by
      intro line hline hinside
      obtain ⟨word, hword, hnumber⟩ := finalScore?_of_mem h.lines hline hinside
      -- the word stored as the score is neither the score nor a value
      have hlookup := hfinal word
      rw [← hkeyval word hword] at hlookup
      rcases hextracts.keyval.only ("score".toList, word) hlookup with
        heq | ⟨line', hline', name, value, hm, heq⟩
      · rw [(Prod.mk.inj heq).2, h.number] at hnumber
        cases hnumber
      · rw [(Prod.mk.inj heq).2, hm.number] at hnumber
        cases hnumber
    exact ⟨hnone, (hiff hnone).mp hextracts.keyval⟩
  · rintro ⟨hnone, hconsistent⟩
    exact ⟨(hiff hnone).mpr hconsistent, hnoted⟩

end Four

/-! ## Both versions -/

/-- Both versions extract the results exactly if their writes are consistent and no line of the
block is taken for the one with the score. -/
theorem unixbench_extracts_iff (err5 : List Text) (text suffix : Text) (lines5 : List Text)
    (score5 : Text) (h5 : IsSection text lines5 score5) (err4 : Option Text)
    (reportData lines4 : List Text) (score4 : Text) (h4 : IsReport reportData lines4 score4) :
    SectionExtracts err5 text suffix lines5 score5 ∧
        ReportExtracts err4 reportData lines4 score4 ↔
      Consistent Write.entry (fun x => x.genuine = true) (writes suffix lines5 score5) ∧
        (∀ line ∈ lines4, ¬"FINAL SCORE".toList <:+: line) ∧
        Consistent Write.entry (fun x => x.genuine = true) (Four.writes lines4 score4) :=
  and_congr (sectionExtracts_iff h5 err5 suffix) (Four.reportExtracts_iff h4 err4)

/-! ## Two reports -/

/-- Lines of a block. In version 4 they end in a newline. -/
def arithohLine (ending : Text) : Text :=
  "Arithoh    18864899.5 lps   (10.0 s, 3 samples)".toList ++ ending

def execlLine (ending : Text) : Text :=
  "Execl Throughput ".toList ++ ("no measured results".toList ++ ending)

theorem resultLine_mixed {ending : Text} (hending : ending = [] ∨ ending = ['\n']) :
    ∀ line ∈ [arithohLine ending, execlLine ending], ResultLine line := by
  refine List.forall_mem_cons.mpr ⟨.inl ⟨["Arithoh".toList], "18864899.5".toList, by decide, ?_⟩,
    List.forall_mem_singleton.mpr (.inr ⟨_, .intro (fun c hc => ?_) ?_⟩)⟩
  · refine ⟨"lps".toList, "10.0".toList, "s,".toList, "3".toList, .inl rfl, ?_⟩
    rcases hending with rfl | rfl
    · decide +kernel
    · decide +kernel
  · obtain rfl := Option.some.inj hc
    rfl
  · rcases hending with rfl | rfl
    · exact List.forall_mem_nil _
    · exact List.forall_mem_singleton.mpr rfl

/-- A section with a measured and an unmeasured line. -/
def mixedSection : Text :=
  "1 CPU in system\n\n".toList ++ (arithohLine [] ++ '\n' :: execlLine []) ++
    "\n\nIndex Score   902.1\n".toList

theorem isSection_mixedSection :
    IsSection mixedSection [arithohLine [], execlLine []] "902.1".toList where
  parts := ⟨"1 CPU in system".toList, arithohLine [] ++ '\n' :: execlLine [],
    "Index Score   902.1\n".toList, [], by decide +kernel, by decide +kernel, by decide +kernel⟩
  lines := resultLine_mixed (.inl rfl)

/-- The same lines in a report of version 4. -/
def mixedReport : List Text :=
  [arithohLine ['\n'], execlLine ['\n'], "\n".toList, "   FINAL SCORE   902.1\n".toList]

theorem isReport_mixedReport :
    IsReport mixedReport [arithohLine ['\n'], execlLine ['\n']] "902.1".toList where
  parts := ⟨["\n".toList, "   FINAL SCORE   902.1\n".toList], rfl, fun line hline => by
    obtain rfl := Option.some.inj hline
    decide, by decide +kernel⟩
  number := by decide
  lines := resultLine_mixed (.inr rfl)

/-- The measured line is stored; the unmeasured one, with five words, is noted and not stored. -/
theorem unixbench_extracts_mixed :
    SectionExtracts [] mixedSection [] [arithohLine [], execlLine []] "902.1".toList ∧
      ReportExtracts none mixedReport [arithohLine ['\n'], execlLine ['\n']] "902.1".toList := by
  refine (unixbench_extracts_iff [] _ [] _ _ isSection_mixedSection none _ _ _
    isReport_mixedReport).mpr ⟨?_, ?_, ?_⟩
  · exact Shared.consistent_of_forall _ _ (by decide +kernel) (by decide +kernel)
  · decide +kernel
  · exact Shared.consistent_of_forall _ _ (by decide +kernel) (by decide +kernel)

/-- A section with one unmeasured line, for a test with these words. -/
def sectionWith (front : Text) : Text :=
  "1 CPU in system\n\n".toList ++ (front ++ ("no measured results".toList ++ [])) ++
    "\n\nIndex Score   902.1\n".toList

theorem isSection_sectionWith {front : Text} (hfront : front.getLast?.all isSpace = true)
    (hparts : paragraphsFrom [] (sectionWith front) = ["1 CPU in system".toList,
      front ++ ("no measured results".toList ++ []), "Index Score   902.1\n".toList])
    (hblock : (pyStrip isSpace (front ++ ("no measured results".toList ++ []))).splitOn '\n' =
      [front ++ ("no measured results".toList ++ [])]) :
    IsSection (sectionWith front) [front ++ ("no measured results".toList ++ [])]
      "902.1".toList where
  parts := ⟨_, _, _, [], hparts, hblock, by decide +kernel⟩
  lines := by
    rw [List.forall_mem_singleton]
    refine .inr ⟨_, .intro (fun c hc => ?_) (List.forall_mem_nil _)⟩
    rw [Option.mem_def.mp hc] at hfront
    exact hfront

/-- An unmeasured line with nine words is noted, but its fourth word is stored as well. -/
theorem processSection_stores_unmeasured :
    IsSection (sectionWith "File Copy 1024 bufsize 2000 maxblocks ".toList)
        ["File Copy 1024 bufsize 2000 maxblocks ".toList ++ ("no measured results".toList ++ [])]
        "902.1".toList ∧
      ¬SectionExtracts [] (sectionWith "File Copy 1024 bufsize 2000 maxblocks ".toList) []
        ["File Copy 1024 bufsize 2000 maxblocks ".toList ++ ("no measured results".toList ++ [])]
        "902.1".toList := by
  have hsection := @isSection_sectionWith "File Copy 1024 bufsize 2000 maxblocks ".toList
    (by decide) (by decide +kernel) (by decide +kernel)
  refine ⟨hsection, fun hextracts => ?_⟩
  obtain ⟨keyval, hok, hkeyval⟩ := hextracts.keyval
  rw [processSection_eq hsection] at hok
  obtain rfl := Except.ok.inj hok
  rcases hkeyval.only ("file_copy_1024".toList, "bufsize".toList) (by decide +kernel) with
    heq | ⟨line, hline, name, value, hm, -⟩
  · revert heq
    decide
  · rw [List.mem_singleton.mp hline] at hm
    have herror := isError_of_measured hm
    revert herror
    decide +kernel

end AutotestClient.Unixbench
