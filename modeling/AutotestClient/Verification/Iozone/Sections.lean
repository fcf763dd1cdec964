import AutotestClient.Verification.Iozone.Throughput

/-! # The sections of a throughput report

What the loop does at each line of a section, and the dictionary at the end: the lines of every
section are filed under its name and number, those about the parents apart. -/

namespace AutotestClient.Iozone

open Shared (digitsValue digitsValue_toDigits insertAll insertAll_append isDigitOf isSpace
  lookup_insertAll_eq_some_iff mem_toDigits printInt takeWhile_append_of_head)
open Tsc (afterSome afterSome_append afterText_append pyStrip pyStrip_around)

variable {st : Scan} {s : Section} {line value unit text : Text}

/-! ## White space -/

theorem not_space_of_inValue {c : Char} (hc : inValue c) : isSpace c = false := by
  rw [inValue, Bool.or_eq_true, decide_eq_true_eq] at hc
  rcases hc with hdigit | rfl
  · exact Shared.not_space_of_digit hdigit
  · decide

theorem not_of_any {p : Char → Bool} {o : Option Char} (h : o.any p = false) :
    ∀ c ∈ o, p c = false := by
  rintro c rfl
  exact h

/-- A line without the white space around it. -/
theorem Rated.exists_core {head : Text} (h : Rated head unit value line) (hhead : head ≠ [])
    (hfirst : head.head?.any isSpace = false) (hunit : unit ≠ [])
    (hlast : unit.getLast?.any isSpace = false) :
    ∃ gap gap', Blank gap ∧ Blank gap' ∧ gap' ≠ [] ∧ (∀ c ∈ value, inValue c) ∧ value ≠ [] ∧
      pyStrip isSpace line = head ++ (gap ++ '=' :: (gap' ++ (value ++ ' ' :: unit))) := by
  obtain ⟨hindent, hgap, hgap', hne, htail, hvalue, hvalueNe⟩ := h
  rename_i indent gap gap' tail
  refine ⟨gap, gap', hgap, hgap', hne, hvalue, hvalueNe, ?_⟩
  have hcore := @pyStrip_around isSpace indent (head ++ (gap ++ '=' :: (gap' ++ (value ++ ' ' :: unit)))) tail
    hindent (List.append_ne_nil_of_left_ne_nil hhead _) ?_ ?_ htail
  · rw [← hcore]
    simp only [List.append_assoc, List.cons_append]
  · rw [List.head?_append_of_ne_nil _ hhead]
    exact not_of_any hfirst
  · rw [List.getLast?_append_of_ne_nil _ (by simp), List.getLast?_append_of_ne_nil _ (by simp),
      List.getLast?_cons_of_ne_nil (by simp), List.getLast?_append_of_ne_nil _ (by simp),
      List.getLast?_append_of_ne_nil _ (by simp), List.getLast?_cons_of_ne_nil hunit]
    exact not_of_any hlast

/-! ## Matching -/

theorem matchRate_of_value {gap : Text} (hgap : Blank gap) (hne : gap ≠ [])
    (hvalue : ∀ c ∈ value, inValue c) (hvalueNe : value ≠ []) :
    matchRate unit ('=' :: (gap ++ (value ++ ' ' :: unit))) = some value := by
  have hfirst : ∀ c ∈ (value ++ ' ' :: unit).head?, isSpace c = false := by
    rw [List.head?_append_of_ne_nil _ hvalueNe]
    exact fun c hc => not_space_of_inValue (hvalue c (List.mem_of_mem_head? hc))
  have hblank : ∀ c ∈ (' ' :: unit).head?, inValue c = false := by
    intro c hc
    obtain rfl := Option.some.inj hc
    decide
  obtain ⟨htake, hdrop⟩ := takeWhile_append_of_head hgap hfirst
  obtain ⟨htake', hdrop'⟩ := takeWhile_append_of_head hvalue hblank
  simp only [matchRate, htake, hdrop, htake', hdrop', if_neg hvalueNe]
  rw [if_pos ⟨hne, List.prefix_rfl⟩]

theorem searchRate_append {pre : Text} (h : '=' ∉ pre) (text : Text) :
    searchRate unit (pre ++ text) = searchRate unit text := by
  induction pre with
  | nil => rfl
  | cons c pre ih =>
      rw [List.mem_cons, not_or] at h
      have hmatch : matchRate unit (c :: (pre ++ text)) = none := by
        rw [matchRate]
        rintro text' ⟨⟩
        exact h.1 rfl
      rw [List.cons_append, searchRate, hmatch, ← ih h.2]
      rfl

theorem searchRate_of_value {pre gap : Text} (hpre : '=' ∉ pre) (hgap : Blank gap) (hne : gap ≠ [])
    (hvalue : ∀ c ∈ value, inValue c) (hvalueNe : value ≠ []) :
    searchRate unit (pre ++ '=' :: (gap ++ (value ++ ' ' :: unit))) = some value := by
  rw [searchRate_append hpre, searchRate, matchRate_of_value hgap hne hvalue hvalueNe]
  rfl

theorem searchSees_of_match {phrase : Text} {m : ℕ × Text × Text} (hphrase : phrase ≠ [])
    (h : matchSees phrase (phrase ++ text) = some m) :
    searchSees phrase (phrase ++ text) = some m := by
  obtain ⟨c, phrase', rfl⟩ := List.exists_cons_of_ne_nil hphrase
  rw [List.cons_append] at h ⊢
  rw [searchSees, h]
  rfl

theorem not_digit_of_space {c : Char} (hc : isSpace c) : isDigitOf 10 c = false := by
  by_contra hdigit
  rw [Bool.not_eq_false] at hdigit
  rw [Shared.not_space_of_digit hdigit] at hc
  cases hc

theorem head?_append_not {p : Char → Bool} {u : Text} (hne : u ≠ []) (h : ∀ c ∈ u, p c = false)
    (v : Text) : ∀ c ∈ (u ++ v).head?, p c = false := by
  rw [List.head?_append_of_ne_nil _ hne]
  exact fun c hc => h c (List.mem_of_mem_head? hc)

/-- Every part of the pattern takes its part of the line. -/
theorem matchSees_append (phrase : Text) {gap digits gap' desc rest : Text} (hgap : Blank gap)
    (hne : gap ≠ []) (hdigits : ∀ c ∈ digits, isDigitOf 10 c) (hdigitsNe : digits ≠ [])
    (hgap' : Blank gap') (hne' : gap' ≠ []) (hdesc : ∀ c ∈ desc, inName c) (hdescNe : desc ≠ [])
    (hhead : ∀ c ∈ desc.head?, isSpace c = false) (hrest : ∀ c ∈ rest.head?, inName c = false) :
    matchSees phrase (phrase ++ (gap ++ (digits ++ (gap' ++ (desc ++ rest))))) =
      (matchRate "KB/sec".toList rest).map fun value => (digitsValue 10 digits, desc, value) := by
  have hdigitsHead := head?_append_not hdigitsNe (fun c hc => Shared.not_space_of_digit
    (hdigits c hc)) (gap' ++ (desc ++ rest))
  have hgapHead := head?_append_not hne' (fun c hc => not_digit_of_space (hgap' c hc))
    (desc ++ rest)
  have hdescHead : ∀ c ∈ (desc ++ rest).head?, isSpace c = false := by
    rwa [List.head?_append_of_ne_nil _ hdescNe]
  rw [matchSees, afterText_append]
  simp only [Option.bind_eq_bind, Option.bind_some, afterSome_append hne hgap hdigitsHead,
    afterSome_append hdigitsNe hdigits hgapHead, afterSome_append hne' hgap' hdescHead,
    afterSome_append hdescNe hdesc hrest, (takeWhile_append_of_head hdigits hgapHead).1,
    (takeWhile_append_of_head hdesc hrest).1]
  cases matchRate "KB/sec".toList rest <;> rfl

theorem not_mem_of_forall {p : Char → Bool} {u : Text} {c : Char} (h : ∀ c ∈ u, p c)
    (hc : p c = false) : c ∉ u := by
  intro hmem
  rw [h c hmem] at hc
  cases hc

/-- What follows the `=` of a line. -/
theorem not_mem_rate {c : Char} {gap : Text} (hgap : Blank gap) (hvalue : ∀ c ∈ value, inValue c)
    (hspace : isSpace c = false) (hc : inValue c = false) (hunit : c ∉ unit) :
    c ∉ gap ++ (value ++ ' ' :: unit) := by
  have hblank : c ≠ ' ' := by
    rintro rfl
    cases hspace
  simp only [List.mem_append, List.mem_cons, not_or]
  exact ⟨not_mem_of_forall hgap hspace, not_mem_of_forall hvalue hc, hblank, hunit⟩

/-- A line about the children or the parent without the white space around it, and what the pattern
finds in it. -/
theorem Sees.exists_core {phrase : Text} (hs : s.WellFormed) (hphrase : phrase ≠ [])
    (hfirst : phrase.head?.any isSpace = false)
    (h : Sees phrase s.workers s.name value line) :
    ∃ pre gap post, 'C' ∉ pre ∧ Blank gap ∧ 'C' ∉ post ∧
      pyStrip isSpace line = phrase ++ (pre ++ ((s.name ++ gap) ++ '=' :: post)) ∧
      searchSees phrase (pyStrip isSpace line) = some (s.workers, s.name ++ gap, value) := by
  obtain ⟨hgap, hne, hgap', hne', hrated⟩ := h
  rename_i gap gap'
  obtain ⟨tail, tail', htail, htail', hneTail, hvalue, hvalueNe, hcore⟩ := hrated.exists_core
    (List.append_ne_nil_of_left_ne_nil hphrase _)
    (by rwa [List.head?_append_of_ne_nil _ hphrase]) (by decide) (by decide)
  have hdigits : ∀ c ∈ Nat.toDigits 10 s.workers, isDigitOf 10 c := mem_toDigits
  have hdesc : ∀ c ∈ s.name ++ tail, inName c := by
    intro c hc
    rcases List.mem_append.mp hc with hc | hc
    · exact hs.name.2 c hc
    · rw [inName, htail c hc, Bool.or_true]
  have hhead : ∀ c ∈ (s.name ++ tail).head?, isSpace c = false := by
    rw [List.head?_append_of_ne_nil _ hs.name.1]
    exact hs.head
  have hrest : ∀ c ∈ ('=' :: (tail' ++ (value ++ ' ' :: "KB/sec".toList))).head?,
      inName c = false := by
    intro c hc
    obtain rfl := Option.some.inj hc
    decide
  have hmatch := matchSees_append phrase hgap hne hdigits Nat.toDigits_ne_nil hgap' hne'
    hdesc (List.append_ne_nil_of_left_ne_nil hs.name.1 _) hhead hrest
  rw [matchRate_of_value htail' hneTail hvalue hvalueNe, Option.map_some,
    digitsValue_toDigits (by decide) (by decide)] at hmatch
  have hline : pyStrip isSpace line = phrase ++ (gap ++ (Nat.toDigits 10 s.workers ++ (gap' ++
      ((s.name ++ tail) ++ '=' :: (tail' ++ (value ++ ' ' :: "KB/sec".toList)))))) := by
    rw [hcore]
    simp only [List.append_assoc]
  refine ⟨gap ++ (Nat.toDigits 10 s.workers ++ gap'), tail,
    tail' ++ (value ++ ' ' :: "KB/sec".toList), ?_, htail,
    not_mem_rate htail' hvalue (by decide) (by decide) (by decide), ?_, ?_⟩
  · simp only [List.mem_append, not_or]
    exact ⟨not_mem_of_forall hgap (by decide), not_mem_of_forall hdigits (by decide),
      not_mem_of_forall hgap' (by decide)⟩
  · rw [hline]
    simp only [List.append_assoc]
  · rw [hline]
    exact searchSees_of_match hphrase hmatch

/-! ## The lines of a section -/

theorem visitLine_first (hs : s.WellFormed) (st : Scan) :
    visitLine st s.first =
      ⟨some s.key, s.workers,
        st.keylist.insert (throughputKey s.key s.workers "kids".toList) s.kids⟩ := by
  obtain ⟨pre, gap, post, -, hgap, -, -, hsearch⟩ :=
    hs.first.exists_core hs (by decide) (by decide)
  have hname : getSectionName (s.name ++ gap) = s.key := by
    rw [getSectionName, ← List.nil_append (s.name ++ gap),
      pyStrip_around (List.forall_mem_nil _) hs.name.1 hs.head hs.last hgap]
    rfl
  rw [visitLine]
  simp only [hsearch, hname]

/-- The fixed parts of a line that is not taken for one about children or parents. -/
abbrev Fixed (head unit : Text) : Prop :=
  head ≠ [] ∧ head.head?.any isSpace = false ∧ unit ≠ [] ∧ unit.getLast?.any isSpace = false ∧
    'C' ∉ head ++ unit ∧ 'P' ∉ head ++ unit ∧ '=' ∉ head

theorem visitLine_of_rated {head basekey : Text} (h : Rated head unit value line)
    (hfixed : Fixed head unit) (hbase : ∀ rest, basekey? (head ++ rest) = some (basekey, unit))
    (st : Scan) :
    visitLine st line =
      { st with
        keylist := st.keylist.insert
          (throughputKey (sectionText st.sectionName) st.wCount basekey) value } := by
  obtain ⟨hhead, hfirst, hunit, hlast, hchild, hparent, hequals⟩ := hfixed
  obtain ⟨gap, gap', hgap, hgap', hne, hvalue, hvalueNe, hcore⟩ :=
    h.exists_core hhead hfirst hunit hlast
  have hnone {c : Char} {phrase : Text} (hc : c ∉ head ++ unit) (hspace : isSpace c = false)
      (hval : inValue c = false) (hne : c ≠ '=') (hphrase : c ∈ phrase) :
      searchSees phrase (pyStrip isSpace line) = none := by
    rw [List.mem_append, not_or] at hc
    apply searchSees_eq_none
    intro hinside
    have hmem := hinside.subset hphrase
    rw [hcore, List.mem_append, List.mem_append, List.mem_cons] at hmem
    rcases hmem with hmem | hmem | hmem | hmem
    · exact hc.1 hmem
    · exact not_mem_of_forall hgap hspace hmem
    · exact hne hmem
    · exact not_mem_rate hgap' hvalue hspace hval hc.2 hmem
  have hsearch : searchRate unit (pyStrip isSpace line) = some value := by
    rw [hcore, ← List.append_assoc]
    apply searchRate_of_value _ hgap' hne hvalue hvalueNe
    rw [List.mem_append, not_or]
    exact ⟨hequals, not_mem_of_forall hgap (by decide)⟩
  have hcontains : (pyStrip isSpace line).contains '=' = true := by
    rw [hcore]
    simp
  have hbasekey : basekey? (pyStrip isSpace line) = some (basekey, unit) := by
    rw [hcore]
    exact hbase _
  rw [visitLine]
  simp only [hnone hchild (by decide) (by decide) (by decide) (by decide : 'C' ∈ childPhrase),
    hnone hparent (by decide) (by decide) (by decide) (by decide : 'P' ∈ parentPhrase), hcontains,
    hbasekey, hsearch]
  rfl

theorem infix_of_append_of_head {c : Char} {w u v : Text} (hc : c ∉ u)
    (h : c :: w <:+: u ++ v) : c :: w <:+: v := by
  induction u with
  | nil => exact h
  | cons d u ih =>
      rw [List.mem_cons, not_or] at hc
      rw [List.cons_append, List.infix_cons_iff, List.cons_prefix_cons] at h
      exact ih hc.2 (h.resolve_left fun hprefix => hc.1 hprefix.1)

theorem infix_of_append_cons {d : Char} {w u v : Text} (hd : d ∉ w) (h : w <:+: u ++ d :: v) :
    w <:+: u ∨ w <:+: v := by
  rw [List.infix_append_iff_ne_nil, List.infix_cons_iff] at h
  rcases h with h | (h | h) | ⟨l₁, l₂, -, hne, rfl, -, hprefix⟩
  · exact .inl h
  · cases w with
    | nil => exact .inl List.nil_infix
    | cons c w =>
        rw [(List.cons_prefix_cons.mp h).1] at hd
        exact absurd List.mem_cons_self hd
  · exact .inr h
  · obtain ⟨c, l, rfl⟩ := List.exists_cons_of_ne_nil hne
    rw [(List.cons_prefix_cons.mp hprefix).1] at hd
    exact absurd (List.mem_append_right l₁ List.mem_cons_self) hd

theorem infix_of_append_of_last {c : Char} {w u v : Text} (hc : c ∉ v) (h : w ++ [c] <:+: u ++ v) :
    w ++ [c] <:+: u := by
  rw [← List.reverse_infix, List.reverse_append, List.reverse_append] at h
  rw [← List.reverse_infix, List.reverse_append]
  exact infix_of_append_of_head (fun hmem => hc (List.mem_reverse.mp hmem)) h

/-- What an item of a section stores. -/
def Item.stored (s : Section) (i : Item) : List (Text × Text) :=
  (i.kind.filter (· ≠ .parent)).toList.map fun k =>
    (throughputKey s.key s.workers k.basekey, i.value)

theorem visitLine_parent (hs : s.WellFormed) (hplain : ¬childPhrase <:+: s.name)
    (h : Sees parentPhrase s.workers s.name value line) (st : Scan) : visitLine st line = st := by
  obtain ⟨pre, gap, post, hpre, hgap, hpost, hcore, hsearch⟩ :=
    h.exists_core hs (by decide) (by decide)
  have hchild : searchSees childPhrase (pyStrip isSpace line) = none := by
    apply searchSees_eq_none
    intro hinside
    rw [hcore, ← List.append_assoc] at hinside
    -- the phrase starts with `C`, holds no `=` and ends with `r`, so it can only be in the name
    have hfront : 'C' ∉ parentPhrase ++ pre := by
      rw [List.mem_append, not_or]
      exact ⟨by decide, hpre⟩
    have hrest := infix_of_append_of_head hfront hinside
    rcases infix_of_append_cons (by decide) hrest with hname | hafter
    · exact hplain (infix_of_append_of_last (c := 'r') (w := "Children see throughput fo".toList)
        (not_mem_of_forall hgap (by decide)) hname)
    · exact hpost (hafter.subset (by decide))
  rw [visitLine]
  simp only [hchild, hsearch]
  simp

theorem visitLine_item (hs : s.WellFormed) (hplain : ¬childPhrase <:+: s.name) {i : Item}
    (hi : i.WellFormed s) (keylist : AList fun _ : Text => Text) :
    visitLine ⟨some s.key, s.workers, keylist⟩ i.line =
      ⟨some s.key, s.workers, insertAll (i.stored s) keylist⟩ := by
  have hrated {head basekey unit : Text} (h : Rated head unit i.value i.line)
      (hfixed : Fixed head unit)
      (hbase : ∀ rest, basekey? (head ++ rest) = some (basekey, unit)) :
      visitLine ⟨some s.key, s.workers, keylist⟩ i.line =
        ⟨some s.key, s.workers,
          insertAll [(throughputKey s.key s.workers basekey, i.value)] keylist⟩ := by
    rw [visitLine_of_rated h hfixed hbase]
    rfl
  rw [Item.WellFormed] at hi
  rw [Item.stored]
  cases hkind : i.kind with
  | none =>
      rw [hkind] at hi
      exact visitLine_of_other hi _
  | some k =>
      rw [hkind] at hi
      cases k with
      | parent => exact visitLine_parent hs hplain hi _
      | min => exact hrated hi (by decide) fun _ => rfl
      | max => exact hrated hi (by decide) fun _ => rfl
      | avg => exact hrated hi (by decide) fun _ => rfl
      | minXfer => exact hrated hi (by decide) fun _ => rfl

/-! ## Whole reports -/

/-- What a section stores. -/
def Section.stored (s : Section) : List (Text × Text) :=
  (throughputKey s.key s.workers "kids".toList, s.kids) :: s.items.flatMap (Item.stored s)

theorem foldl_visitLine_items (hs : s.WellFormed) (hplain : ¬childPhrase <:+: s.name)
    {items : List Item} (hitems : ∀ i ∈ items, i.WellFormed s)
    (keylist : AList fun _ : Text => Text) :
    (items.map Item.line).foldl visitLine ⟨some s.key, s.workers, keylist⟩ =
      ⟨some s.key, s.workers, insertAll (items.flatMap (Item.stored s)) keylist⟩ := by
  induction items generalizing keylist with
  | nil => rfl
  | cons i items ih =>
      rw [List.forall_mem_cons] at hitems
      rw [List.map_cons, List.foldl_cons, visitLine_item hs hplain hitems.1, ih hitems.2,
        List.flatMap_cons, insertAll_append]

theorem foldl_visitLine_section (hs : s.WellFormed) (hplain : ¬childPhrase <:+: s.name)
    (st : Scan) :
    (s.first :: s.items.map Item.line).foldl visitLine st =
      ⟨some s.key, s.workers, insertAll s.stored st.keylist⟩ := by
  rw [List.foldl_cons, visitLine_first hs, foldl_visitLine_items hs hplain hs.items]
  rfl

theorem foldl_visitLine_sections {sections : List Section} (hs : ∀ s ∈ sections, s.WellFormed)
    (hplain : ∀ s ∈ sections, ¬childPhrase <:+: s.name) (st : Scan) :
    ((sections.flatMap fun s => s.first :: s.items.map Item.line).foldl visitLine st).keylist =
      insertAll (sections.flatMap Section.stored) st.keylist := by
  induction sections generalizing st with
  | nil => rfl
  | cons s sections ih =>
      rw [List.forall_mem_cons] at hs hplain
      rw [List.flatMap_cons, List.foldl_append, foldl_visitLine_section hs.1 hplain.1,
        ih hs.2 hplain.2, List.flatMap_cons, insertAll_append]

/-- What follows the last separator can be read off. -/
theorem append_cons_inj {c : Char} {u u' v v' : Text} (hv : c ∉ v) (hv' : c ∉ v')
    (h : u ++ c :: v = u' ++ c :: v') : u = u' ∧ v = v' := by
  have hread (u : Text) {v : Text} (hv : c ∉ v) :
      ((u ++ c :: v).reverse.takeWhile (· ≠ c)) = v.reverse ∧
        ((u ++ c :: v).reverse.dropWhile (· ≠ c)) = c :: u.reverse := by
    rw [List.reverse_append, List.reverse_cons, List.append_assoc, List.singleton_append]
    apply takeWhile_append_of_head
    · intro d hd
      simpa using ne_of_mem_of_not_mem (List.mem_reverse.mp hd) hv
    · intro d hd
      obtain rfl := Option.some.inj hd
      simp
  have hfront := (hread u hv).2
  have hback := (hread u hv).1
  rw [h, (hread u' hv').2] at hfront
  rw [h, (hread u' hv').1] at hback
  exact ⟨(List.reverse_injective (List.cons.inj hfront).2).symm, (List.reverse_injective hback).symm⟩

theorem throughputKey_inj {sectionName sectionName' basekey basekey' : Text} {n n' : ℕ}
    (hbase : '-' ∉ basekey) (hbase' : '-' ∉ basekey')
    (h : throughputKey sectionName n basekey = throughputKey sectionName' n' basekey') :
    sectionName = sectionName' ∧ n = n' ∧ basekey = basekey' := by
  have hdigits (n : ℕ) : '-' ∉ printInt n := by
    rw [Shared.printInt_natCast]
    exact not_mem_of_forall mem_toDigits (by decide)
  simp only [throughputKey] at h
  rw [← List.cons_append, ← List.cons_append, ← List.append_assoc, ← List.append_assoc] at h
  obtain ⟨hfront, hbasekey⟩ := append_cons_inj hbase hbase' h
  obtain ⟨hname, hcount⟩ := append_cons_inj (hdigits n) (hdigits n') hfront
  rw [← List.append_nil (printInt n), ← List.append_nil (printInt n')] at hcount
  obtain ⟨hn, -⟩ := Shared.printInt_append_inj Shared.stops_nil Shared.stops_nil hcount
  exact ⟨hname, Int.ofNat.inj hn, hbasekey⟩

theorem basekey_ne_parent_iff (k : Kind) : k.basekey ≠ "parent".toList ↔ k ≠ .parent := by
  cases k <;> decide

theorem mem_item_stored_iff {i : Item} {e : Text × Text} :
    e ∈ i.stored s ↔ ∃ k, i.kind = some k ∧ k.basekey ≠ "parent".toList ∧
      e = (throughputKey s.key s.workers k.basekey, i.value) := by
  simp only [Item.stored, List.mem_map, Option.mem_toList, Option.filter_eq_some_iff,
    decide_eq_true_eq, basekey_ne_parent_iff, and_assoc, eq_comm (a := e)]

/-- The entries of a section that are stored are those not about the parent. -/
theorem mem_stored_iff {e : Text × Text} :
    e ∈ s.stored ↔ ∃ e' ∈ s.entries, e'.1 ≠ "parent".toList ∧
      e = (throughputKey s.key s.workers e'.1, e'.2) := by
  rw [Section.stored, List.mem_cons, List.mem_flatMap, Section.entries, List.exists_mem_cons_iff]
  have hkids : "kids".toList ≠ "parent".toList := by decide
  refine or_congr ⟨fun h => ⟨hkids, h⟩, fun h => h.2⟩ ?_
  simp only [mem_item_stored_iff, List.mem_filterMap, Option.map_eq_some_iff]
  constructor
  · rintro ⟨i, hi, k, hkind, hparent, rfl⟩
    exact ⟨_, ⟨i, hi, k, hkind, rfl⟩, hparent, rfl⟩
  · rintro ⟨_, ⟨i, hi, k, hkind, rfl⟩, hparent, rfl⟩
    exact ⟨i, hi, k, hkind, hparent, rfl⟩

theorem entries_keys_perm (hs : s.WellFormed) : (s.entries.map Prod.fst).Perm
    ("kids".toList :: [Kind.parent, .min, .max, .avg, .minXfer].map Kind.basekey) := by
  have hkeys : (s.items.filterMap fun i => i.kind.map fun k => (k.basekey, i.value)).map Prod.fst =
      (s.items.filterMap Item.kind).map Kind.basekey := by
    rw [List.map_filterMap, List.map_filterMap]
    congr 1
    funext i
    rw [Option.map_map]
    rfl
  rw [Section.entries, List.map_cons, hkeys]
  exact (hs.kinds.map Kind.basekey).cons _

theorem not_mem_of_mem_entries (hs : s.WellFormed) {e : Text × Text} (he : e ∈ s.entries) :
    '-' ∉ e.1 := by
  have hmem := (entries_keys_perm hs).mem_iff.mp (List.mem_map_of_mem he)
  have hall : ∀ key ∈ "kids".toList :: [Kind.parent, .min, .max, .avg, .minXfer].map Kind.basekey,
      '-' ∉ key := by
    decide
  exact hall _ hmem

theorem stored_functional {r : Report} (hr : r.WellFormed) :
    ∀ e ∈ r.sections.flatMap Section.stored, ∀ e' ∈ r.sections.flatMap Section.stored,
      e.1 = e'.1 → e.2 = e'.2 := by
  intro e he e' he' hkey
  obtain ⟨s, hs, he⟩ := List.mem_flatMap.mp he
  obtain ⟨s', hs', he'⟩ := List.mem_flatMap.mp he'
  obtain ⟨x, hx, -, rfl⟩ := mem_stored_iff.mp he
  obtain ⟨x', hx', -, rfl⟩ := mem_stored_iff.mp he'
  obtain ⟨hname, hcount, hbase⟩ := throughputKey_inj
    (not_mem_of_mem_entries (hr.sections s hs) hx)
    (not_mem_of_mem_entries (hr.sections s' hs') hx') hkey
  obtain rfl := List.inj_on_of_nodup_map hr.distinct hs hs' (Prod.ext hname hcount)
  have hnodup : (s.entries.map Prod.fst).Nodup :=
    (entries_keys_perm (hr.sections s hs)).nodup_iff.mpr (by decide)
  obtain rfl := List.inj_on_of_nodup_map hnodup hx hx' hbase
  rfl

/-- The dictionary has the entries of all sections that are not about a parent, and no others. -/
theorem throughputKeylist_lookup_iff {results : Text} {r : Report} (hr : r.WellFormed)
    (hplain : ∀ s ∈ r.sections, ¬childPhrase <:+: s.name)
    (hlines : splitlines results = r.lines) (key value : Text) :
    (throughputKeylist results).lookup key = some value ↔
      ∃ s ∈ r.sections, ∃ e ∈ s.entries, e.1 ≠ "parent".toList ∧
        key = throughputKey s.key s.workers e.1 ∧ value = e.2 := by
  rw [throughputKeylist, hlines, Report.lines, List.foldl_append,
    foldl_visitLine_of_other hr.preamble, foldl_visitLine_sections hr.sections hplain,
    lookup_insertAll_eq_some_iff (stored_functional hr), List.mem_flatMap]
  simp only [mem_stored_iff, Prod.mk.injEq]

end AutotestClient.Iozone
