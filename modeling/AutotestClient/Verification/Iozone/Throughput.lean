import AutotestClient.Model.Iozone.Throughput
import AutotestClient.Verification.Tsc.Text

/-! # The key-values of the throughput mode

A report has sections, each with a line for the children, one for the parent and four more. The line
for the parent is recognized, but its value is not stored. -/

namespace AutotestClient.Iozone

open Shared (isSpace)
open Tsc (pyStrip pyStrip_isInfix)

/-! ## Reports -/

def Blank (text : Text) : Prop := ∀ c ∈ text, isSpace c

/-- A line with a value, such as `Min xfer = 2048.00 KB`, and white space around its parts. -/
inductive Rated (head unit value : Text) : Text → Prop where
  | intro {indent gap gap' tail : Text} (hindent : Blank indent) (hgap : Blank gap)
      (hgap' : Blank gap') (hne : gap' ≠ []) (htail : Blank tail) (hvalue : ∀ c ∈ value, inValue c)
      (hvalueNe : value ≠ []) :
      Rated head unit value
        (indent ++ (head ++ (gap ++ '=' :: (gap' ++ (value ++ ' ' :: (unit ++ tail))))))

/-- A line about the children or the parent. -/
inductive Sees (phrase : Text) (workers : ℕ) (name value line : Text) : Prop where
  | intro {gap gap' : Text} (hgap : Blank gap) (hne : gap ≠ []) (hgap' : Blank gap')
      (hne' : gap' ≠ [])
      (h : Rated (phrase ++ (gap ++ (Nat.toDigits 10 workers ++ (gap' ++ name))))
        "KB/sec".toList value line)

/-- A line about something else. -/
def Other (line : Text) : Prop :=
  ∀ phrase ∈ [childPhrase, parentPhrase, " throughput per thread ".toList, "Min xfer ".toList],
    ¬phrase <:+: line

/-- The lines of a section after its first one. -/
inductive Kind where
  | parent
  | min
  | max
  | avg
  | minXfer
  deriving DecidableEq

def Kind.basekey : Kind → Text
  | .parent => "parent".toList
  | .min => "Min".toList
  | .max => "Max".toList
  | .avg => "Avg".toList
  | .minXfer => "MinXfer".toList

/-- A line, its kind if it is not about something else, and its value. -/
structure Item where
  kind : Option Kind
  value : Text
  line : Text

structure Section where
  name : Text
  workers : ℕ
  kids : Text
  first : Text
  items : List Item

/-- What a line of some kind looks like in a section. -/
def Kind.Prints (s : Section) (value line : Text) : Kind → Prop
  | .parent => Sees parentPhrase s.workers s.name value line
  | .min => Rated "Min throughput per thread ".toList "KB/sec".toList value line
  | .max => Rated "Max throughput per thread ".toList "KB/sec".toList value line
  | .avg => Rated "Avg throughput per thread ".toList "KB/sec".toList value line
  | .minXfer => Rated "Min xfer ".toList "KB".toList value line

def Item.WellFormed (s : Section) (i : Item) : Prop :=
  match i.kind with
  | none => Other i.line
  | some k => k.Prints s i.value i.line

/-- `<section>`. -/
def Section.key (s : Section) : Text := s.name.map fun c => if c = ' ' then '_' else c

/-- A line of each kind, in any order. -/
structure Section.WellFormed (s : Section) : Prop where
  name : s.name ≠ [] ∧ ∀ c ∈ s.name, inName c
  head : ∀ c ∈ s.name.head?, isSpace c = false
  last : ∀ c ∈ s.name.getLast?, isSpace c = false
  first : Sees childPhrase s.workers s.name s.kids s.first
  items : ∀ i ∈ s.items, i.WellFormed s
  kinds : (s.items.filterMap Item.kind).Perm [.parent, .min, .max, .avg, .minXfer]

/-- The lines before the first section, and the sections. -/
structure Report where
  preamble : List Text
  sections : List Section

def Report.lines (r : Report) : List Text :=
  r.preamble ++ r.sections.flatMap fun s => s.first :: s.items.map Item.line

structure Report.WellFormed (r : Report) : Prop where
  preamble : ∀ line ∈ r.preamble, Other line
  sections : ∀ s ∈ r.sections, s.WellFormed
  distinct : (r.sections.map fun s => (s.key, s.workers)).Nodup

/-- The entries of a section, without its name and number. -/
def Section.entries (s : Section) : List (Text × Text) :=
  ("kids".toList, s.kids) :: s.items.filterMap fun i => i.kind.map fun k => (k.basekey, i.value)

/-- The dictionary has the entries of all sections, and no others. -/
def Records (r : Report) (keylist : AList fun _ : Text => Text) : Prop :=
  ∀ key value, keylist.lookup key = some value ↔
    ∃ s ∈ r.sections, ∃ e ∈ s.entries, key = throughputKey s.key s.workers e.1 ∧ value = e.2

variable {st : Scan} {line text unit : Text} {r : Report}

/-! ## What is stored -/

/-- The last four characters of a key that can be stored. -/
def Stored (ending : Text) : Prop :=
  ending = "kids".toList ∨ ending = "Xfer".toList ∨ ending.head? = some '-' ∧ ending.length = 4

theorem stored_basekey {basekey : Text} (h : basekey? line = some (basekey, unit)) (u : Text) :
    ∃ v ending, u ++ '-' :: basekey = v ++ ending ∧ ending.length = 4 ∧ Stored ending := by
  rw [basekey?] at h
  split_ifs at h with hthread hxfer
  · obtain ⟨rfl, rfl⟩ := Prod.mk.inj (Option.some.inj h)
    have hlength : 3 < line.length := by
      by_contra hle
      rw [List.drop_eq_nil_of_le (by omega)] at hthread
      cases hthread
    have hfour : ('-' :: line.take 3).length = 4 := by
      rw [List.length_cons, List.length_take]
      omega
    exact ⟨u, _, rfl, hfour, .inr (.inr ⟨rfl, hfour⟩)⟩
  · obtain ⟨rfl, rfl⟩ := Prod.mk.inj (Option.some.inj h)
    exact ⟨u ++ "-Min".toList, "Xfer".toList, by simp, rfl, .inr (.inl rfl)⟩

/-- A line stores at most one value. -/
theorem visitLine_keylist (st : Scan) (text : Text) :
    (visitLine st text).keylist = st.keylist ∨
      ∃ u ending value, (visitLine st text).keylist = st.keylist.insert (u ++ ending) value ∧
        ending.length = 4 ∧ Stored ending := by
  rw [visitLine]
  cases hchild : searchSees childPhrase (pyStrip isSpace text) with
  | some m =>
      refine .inr ⟨getSectionName m.2.1 ++ '-' :: (Shared.printInt m.1 ++ ['-']), "kids".toList,
        m.2.2, ?_, rfl, .inl rfl⟩
      simp [throughputKey]
  | none =>
      simp only
      split_ifs with hvalue
      · cases hbase : basekey? (pyStrip isSpace text) with
        | none => exact .inl rfl
        | some b =>
            cases hrate : searchRate b.2 (pyStrip isSpace text) with
            | none => exact .inl (by simp only [hrate])
            | some result =>
                obtain ⟨v, ending, heq, hlength, hstored⟩ := stored_basekey hbase
                  (sectionText st.sectionName ++ '-' :: Shared.printInt st.wCount)
                refine .inr ⟨v, ending, result, ?_, hlength, hstored⟩
                simp only [hrate, ← heq, throughputKey, List.append_assoc, List.cons_append]
      · exact .inl rfl

/-- No key ends with `parent`. -/
theorem lookup_parent (lines : List Text) (sectionName : Text) (wCount : ℕ)
    (hst : st.keylist.lookup (throughputKey sectionName wCount "parent".toList) = none) :
    (lines.foldl visitLine st).keylist.lookup
      (throughputKey sectionName wCount "parent".toList) = none := by
  induction lines generalizing st with
  | nil => exact hst
  | cons line lines ih =>
      apply ih
      obtain hsame | ⟨u, ending, value, hinsert, hlength, hstored⟩ := visitLine_keylist st line
      · rw [hsame]
        exact hst
      · have hne : throughputKey sectionName wCount "parent".toList ≠ u ++ ending := by
          intro heq
          have hends : (sectionName ++ '-' :: (Shared.printInt wCount ++ "-pa".toList)) ++
              "rent".toList = u ++ ending := by
            rw [← heq]
            simp [throughputKey]
          obtain rfl := (List.append_inj' hends hlength.symm).2
          revert hstored
          rintro (h | h | ⟨h, -⟩) <;> revert h <;> decide
        rw [hinsert, AList.lookup_insert_ne hne]
        exact hst

/-! ## Other lines -/

theorem infix_of_searchSees {phrase : Text} {m : ℕ × Text × Text}
    (h : searchSees phrase line = some m) : phrase <:+: line := by
  induction line with
  | nil => cases h
  | cons c line ih =>
      rw [searchSees] at h
      cases hmatch : matchSees phrase (c :: line) with
      | none =>
          rw [hmatch] at h
          exact (ih h).trans (List.suffix_cons c line).isInfix
      | some m' =>
          obtain ⟨rest, hrest, -⟩ := Option.bind_eq_some_iff.mp hmatch
          rw [Tsc.afterText] at hrest
          split_ifs at hrest with hprefix
          exact hprefix.isInfix

theorem searchSees_eq_none {phrase : Text} (h : ¬phrase <:+: line) :
    searchSees phrase line = none := by
  by_contra hsome
  obtain ⟨m, hm⟩ := Option.ne_none_iff_exists'.mp hsome
  exact h (infix_of_searchSees hm)

theorem basekey?_of_other (h : Other line) : basekey? line = none := by
  rw [basekey?, if_neg, if_neg]
  · exact fun hprefix => h "Min xfer ".toList (by simp) hprefix.isInfix
  · intro hthread
    apply h " throughput per thread ".toList (by simp)
    rw [← hthread]
    exact (List.take_prefix 23 _).isInfix.trans (List.drop_suffix 3 line).isInfix

theorem Other.pyStrip (h : Other line) : Other (pyStrip isSpace line) :=
  fun phrase hphrase hinside => h phrase hphrase (hinside.trans (pyStrip_isInfix isSpace line))

theorem visitLine_of_other (h : Other line) (st : Scan) : visitLine st line = st := by
  have hchild : searchSees childPhrase (Tsc.pyStrip isSpace line) = none :=
    searchSees_eq_none (h.pyStrip childPhrase (by simp))
  rw [visitLine]
  simp only [hchild, basekey?_of_other h.pyStrip, ite_self]

theorem foldl_visitLine_of_other {lines : List Text} (h : ∀ line ∈ lines, Other line)
    (st : Scan) : lines.foldl visitLine st = st := by
  induction lines with
  | nil => rfl
  | cons line lines ih =>
      rw [List.forall_mem_cons] at h
      rw [List.foldl_cons, visitLine_of_other h.1, ih h.2]

/-- The values for the parents are lost, so nothing is only if there are no sections. -/
theorem throughputKeylist_records_iff (results : Text) (r : Report) (hr : r.WellFormed)
    (hlines : splitlines results = r.lines) :
    Records r (throughputKeylist results) ↔ r.sections = [] := by
  constructor
  · intro hrecords
    by_contra hne
    obtain ⟨s, hs⟩ := List.exists_mem_of_ne_nil _ hne
    have hparent : Kind.parent ∈ s.items.filterMap Item.kind :=
      (hr.sections s hs).kinds.mem_iff.mpr List.mem_cons_self
    obtain ⟨i, hi, hkind⟩ := List.mem_filterMap.mp hparent
    have hentry : ("parent".toList, i.value) ∈ s.entries :=
      List.mem_cons_of_mem _ (List.mem_filterMap.mpr ⟨i, hi, by rw [hkind]; rfl⟩)
    have hlookup := (hrecords _ _).mpr ⟨s, hs, _, hentry, rfl, rfl⟩
    rw [throughputKeylist, lookup_parent _ _ _ (AList.lookup_empty _)] at hlookup
    cases hlookup
  · intro hnil key value
    have hother : ∀ line ∈ splitlines results, Other line := by
      rw [hlines, Report.lines, hnil, List.flatMap_nil, List.append_nil]
      exact hr.preamble
    rw [throughputKeylist, foldl_visitLine_of_other hother, AList.lookup_empty, hnil]
    simp

/-! ## A report with one section -/

/-- A line as IOzone prints it. -/
def ratedLine (head unit value : Text) : Text :=
  ['\t'] ++ (head ++ (['\t'] ++ '=' :: ([' ', ' '] ++ (value ++ ' ' :: (unit ++ [])))))

theorem rated_ratedLine (head unit : Text) {value : Text} (h : value.all inValue = true)
    (hne : value ≠ []) : Rated head unit value (ratedLine head unit value) :=
  .intro (List.all_eq_true.mp rfl) (List.all_eq_true.mp rfl) (List.all_eq_true.mp rfl)
    (List.cons_ne_nil _ _) (List.forall_mem_nil _) (List.all_eq_true.mp h) hne

def writersHead (phrase : Text) : Text :=
  phrase ++ ([' ', ' '] ++ (Nat.toDigits 10 2 ++ ([' '] ++ "initial writers".toList)))

theorem sees_writers (phrase : Text) {value : Text} (h : value.all inValue = true)
    (hne : value ≠ []) : Sees phrase 2 "initial writers".toList value
      (ratedLine (writersHead phrase) "KB/sec".toList value) :=
  .intro (List.all_eq_true.mp rfl) (List.cons_ne_nil _ _) (List.all_eq_true.mp rfl)
    (List.cons_ne_nil _ _) (rated_ratedLine _ _ h hne)

/-- The section of two writers. -/
def writers : Section where
  name := "initial writers".toList
  workers := 2
  kids := "403842.62".toList
  first := ratedLine (writersHead childPhrase) "KB/sec".toList "403842.62".toList
  items :=
    [⟨some .parent, "350.5".toList,
      ratedLine (writersHead parentPhrase) "KB/sec".toList "350.5".toList⟩,
    ⟨some .min, "200.0".toList,
      ratedLine "Min throughput per thread ".toList "KB/sec".toList "200.0".toList⟩,
    ⟨some .max, "203.5".toList,
      ratedLine "Max throughput per thread ".toList "KB/sec".toList "203.5".toList⟩,
    ⟨some .avg, "201.75".toList,
      ratedLine "Avg throughput per thread ".toList "KB/sec".toList "201.75".toList⟩,
    ⟨some .minXfer, "2048.00".toList,
      ratedLine "Min xfer ".toList "KB".toList "2048.00".toList⟩]

theorem writers_wellFormed : writers.WellFormed where
  name := ⟨by decide, List.all_eq_true.mp (by decide)⟩
  head c hc := by
    obtain rfl := Option.some.inj hc
    decide
  last c hc := by
    obtain rfl := Option.some.inj hc
    decide
  first := sees_writers childPhrase (by decide) (by decide)
  items := by
    refine List.forall_mem_cons.mpr ⟨sees_writers parentPhrase (by decide) (by decide), ?_⟩
    refine List.forall_mem_cons.mpr ⟨rated_ratedLine _ _ (by decide) (by decide), ?_⟩
    refine List.forall_mem_cons.mpr ⟨rated_ratedLine _ _ (by decide) (by decide), ?_⟩
    refine List.forall_mem_cons.mpr ⟨rated_ratedLine _ _ (by decide) (by decide), ?_⟩
    exact List.forall_mem_singleton.mpr (rated_ratedLine _ _ (by decide) (by decide))
  kinds := List.Perm.refl _

def writersReport : Report := ⟨[], [writers]⟩

theorem writersReport_wellFormed : writersReport.WellFormed where
  preamble := List.forall_mem_nil _
  sections := List.forall_mem_singleton.mpr writers_wellFormed
  distinct := List.nodup_singleton _

def writersResults : Text := ['\n'].intercalate writersReport.lines

theorem splitlines_writersResults : splitlines writersResults = writersReport.lines := by
  decide +kernel

theorem throughputKeylist_not_records :
    ¬Records writersReport (throughputKeylist writersResults) := by
  rw [throughputKeylist_records_iff writersResults writersReport writersReport_wellFormed
    splitlines_writersResults]
  decide

/-- The value for the parent is not in the dictionary. -/
theorem throughputKeylist_loses_parent :
    writersReport.WellFormed ∧ splitlines writersResults = writersReport.lines ∧
      ¬Records writersReport (throughputKeylist writersResults) := by
  refine ⟨writersReport_wellFormed, splitlines_writersResults, fun hrecords => ?_⟩
  have hentry : ("parent".toList, "350.5".toList) ∈ writers.entries := by decide
  have hlookup := (hrecords _ _).mpr ⟨writers, List.mem_cons_self, _, hentry, rfl, rfl⟩
  rw [throughputKeylist, lookup_parent _ _ _ (AList.lookup_empty _)] at hlookup
  cases hlookup

end AutotestClient.Iozone
