import AutotestClient.Shared.Except
import AutotestClient.Verification.FtpTest.Scanner

/-! # Safety of the parser and its words

The parser never leaves the buffer or the table of parameters, and finds the words of the command,
exactly for buffers that end outside of double quotes, have no more words than the table holds and
a newline only where it ends the last word of the text. -/

namespace AutotestClient.FtpTest

open Shared

variable {before rest : List UInt8} {par : List ℕ}

/-- The string that is left of a word. -/
def cut (w : List Marked) : List UInt8 := (w.map rewrite).takeWhile (· ≠ nul)

/-- A string, without a check of its end. -/
def stringAt (buf : List UInt8) (index : ℕ) : List UInt8 := (buf.drop index).takeWhile (· ≠ nul)

/-! ## The words that are found -/

/-- A string ends at its first NUL. -/
theorem takeWhile_append_nul (u v : List UInt8) :
    (u ++ nul :: v).takeWhile (· ≠ nul) = u.takeWhile (· ≠ nul) := by
  induction u with
  | nil => rfl
  | cons c u ih => rw [List.cons_append, List.takeWhile_cons, List.takeWhile_cons, ih]

theorem stringAt_word (w : List Marked) {tail : List UInt8} (htail : tail.head? = some nul) :
    stringAt (before ++ (w.map rewrite ++ tail)) before.length = cut w := by
  obtain ⟨t, rfl⟩ := List.head?_eq_some_iff.mp htail
  rw [stringAt, List.drop_left, takeWhile_append_nul, cut]

theorem head?_rewrite {s r : List Marked} (hsep : ∀ x ∈ s, isSeparator x) (hs : s = [] → r = [])
    (z : List UInt8) : ((s ++ r).map rewrite ++ nul :: z).head? = some nul := by
  cases s with
  | nil => rw [hs rfl]; rfl
  | cons x s =>
      rw [← rewrite_of_isSeparator (hsep x List.mem_cons_self)]
      rfl

/-- The words up to the NUL that ends the scan. -/
theorem parseWords_words (par : List ℕ) (before : List UInt8) {r z : List Marked}
    (h : marked rest = r ++ (nul, false) :: z)
    (hr : ∀ x ∈ r, isEnd x = false) (hne : r ≠ [])
    (hhead : ∀ x ∈ r.head?, isSeparator x = false)
    (hfew : par.length + (words isSeparator r).length ≤ nMaxPar) :
    ∃ ps, parseWords par ⟨before, rest⟩ =
        .ok ⟨before ++ (r.map rewrite ++ nul :: z.map Prod.fst), par ++ ps⟩ ∧
      (∀ p ∈ ps, p < before.length + r.length) ∧
      ps.map (stringAt (before ++ (r.map rewrite ++ nul :: z.map Prod.fst))) =
        (words isSeparator r).map cut := by
  induction hn : r.length using Nat.strong_induction_on generalizing par before rest r with
  | _ n ih =>
      obtain ⟨w, s, r', rfl, hwne, hw, hsep, hhead', hs, hwords⟩ := exists_word hne hhead
      rw [hwords, List.length_cons] at hfew
      have hroom : par.length < nMaxPar := by omega
      have hword : ∀ x ∈ w, isSeparator x = false ∧ isEnd x = false :=
        fun x hx => ⟨hw x hx, hr x (List.mem_append_left _ hx)⟩
      have hfirst : stringAt (before ++ ((w ++ (s ++ r')).map rewrite ++ nul :: z.map Prod.fst))
          before.length = cut w := by
        rw [List.map_append, List.append_assoc]
        exact stringAt_word w (head?_rewrite hsep hs _)
      have hpos : 0 < w.length := List.length_pos_of_ne_nil hwne
      cases r' with
      | nil =>
          have h' : marked rest = w ++ (s ++ (nul, false) :: z) := by simpa using h
          refine ⟨[before.length], ?_, ?_, ?_⟩
          · rw [parseWords_of_marked h' hword hsep rfl (fun _ => rfl) hroom,
              if_pos (show isEnd (nul, false) = true from rfl)]
            simp
          · rw [List.forall_mem_singleton, ← hn, List.length_append]
            omega
          · rw [List.map_singleton, hfirst, hwords]
            rfl
      | cons e v =>
          have hsne : s ≠ [] := fun hnil => by cases hs hnil
          have he : isEnd e = false := hr e (by simp)
          have h' : marked rest = w ++ (s ++ e :: (v ++ (nul, false) :: z)) := by simpa using h
          obtain ⟨hnext, hmarked⟩ := parseWords_next h' hword hsne hsep (hhead' e rfl) he hroom
          have hshort : (e :: v).length < n := by
            rw [← hn, List.length_append, List.length_append]
            omega
          have hfew' : (par ++ [before.length]).length + (words isSeparator (e :: v)).length ≤
              nMaxPar := by
            rw [List.length_append, List.length_singleton]
            omega
          obtain ⟨ps, hparse, hps, hstrings⟩ := ih (e :: v).length hshort
            (par ++ [before.length]) (before ++ (w ++ s).map rewrite) hmarked
            (fun x hx => hr x (List.mem_append_right _ (List.mem_append_right _ hx)))
            (List.cons_ne_nil e v) hhead' hfew' rfl
          have hbuf : before ++ (w ++ s).map rewrite ++ ((e :: v).map rewrite ++
              nul :: z.map Prod.fst) =
                before ++ ((w ++ (s ++ e :: v)).map rewrite ++ nul :: z.map Prod.fst) := by
            simp
          rw [hbuf] at hparse hstrings
          refine ⟨before.length :: ps, ?_, ?_, ?_⟩
          · refine hnext.trans ?_
            rw [List.append_assoc] at hparse
            exact hparse
          · rw [List.forall_mem_cons, ← hn]
            refine ⟨by rw [List.length_append]; omega, fun p hp => (hps p hp).trans_le ?_⟩
            simp only [List.length_append, List.length_map]
            omega
          · rw [List.map_cons, hfirst, hstrings, hwords]
            rfl

/-- More words than the table holds. -/
theorem parseWords_many (par : List ℕ) (before : List UInt8) {r z : List Marked}
    (h : marked rest = r ++ (nul, false) :: z)
    (hr : ∀ x ∈ r, isEnd x = false) (hne : r ≠ [])
    (hhead : ∀ x ∈ r.head?, isSeparator x = false)
    (hmany : nMaxPar < par.length + (words isSeparator r).length) :
    ∃ f, parseWords par ⟨before, rest⟩ = .error f := by
  have hrest : rest ≠ [] := by
    rintro rfl
    simp [marked, markQuotes] at h
  induction hn : nMaxPar - par.length generalizing par before rest r with
  | zero =>
      rw [parseWords, if_neg hrest, if_pos (by omega)]
      exact ⟨_, rfl⟩
  | succ n ih =>
      have hroom : par.length < nMaxPar := by omega
      obtain ⟨w, s, r', rfl, -, hw, hsep, hhead', hs, hwords⟩ := exists_word hne hhead
      rw [hwords, List.length_cons] at hmany
      have hword : ∀ x ∈ w, isSeparator x = false ∧ isEnd x = false :=
        fun x hx => ⟨hw x hx, hr x (List.mem_append_left _ hx)⟩
      cases r' with
      | nil =>
          have hnone : (words isSeparator ([] : List Marked)).length = 0 := rfl
          omega
      | cons e v =>
          have hsne : s ≠ [] := fun hnil => by cases hs hnil
          have he : isEnd e = false := hr e (by simp)
          have h' : marked rest = w ++ (s ++ e :: (v ++ (nul, false) :: z)) := by simpa using h
          obtain ⟨hnext, hmarked⟩ := parseWords_next h' hword hsne hsep (hhead' e rfl) he hroom
          rw [hnext]
          apply ih _ _ hmarked
            (fun x hx => hr x (List.mem_append_right _ (List.mem_append_right _ hx)))
            (List.cons_ne_nil e v) hhead'
          · rw [List.length_append, List.length_singleton]
            omega
          · simp
          · rw [List.length_append, List.length_singleton]
            omega

/-! ## The words of the text -/

/-- The command from its first byte on. -/
def started (buf : List UInt8) : List UInt8 := buf.dropWhile fun c => c = blank || c = nul

/-- The text of the command. -/
def text (buf : List UInt8) : List UInt8 := (started buf).takeWhile (· ≠ nul)

/-- What the parser reads. -/
def scanned (buf : List UInt8) : List Marked := (marked (started buf)).takeWhile (!isEnd ·)

/-- The words of a text, with no newline at its end. -/
def textWords (text : List UInt8) : List (List UInt8) :=
  let line := if text.getLast? = some newline then text.dropLast else text
  (words isSeparator (marked line)).map (List.map Prod.fst)

/-- A newline that becomes a NUL. -/
def isBreak (e : Marked) : Bool := e.1 = newline && !e.2

/-- The newlines that become a NUL are those at the end. -/
def NewlineLast (marks : List Marked) : Prop :=
  ∀ u e v, marks = u ++ e :: v → e.1 = newline → (e.2 = false ↔ v = [])

/-- A newline at the end stands right behind a word. -/
def NewlineAttached (marks : List Marked) : Prop :=
  ∀ u e, marks = u ++ [e] → e.1 = newline → ∃ x, u.getLast? = some x ∧ isSeparator x = false

theorem rewrite_of_isBreak {x : Marked} (hx : isBreak x) : rewrite x = nul := by
  simp only [isBreak, Bool.and_eq_true, decide_eq_true_eq] at hx
  rw [rewrite, if_pos ⟨hx.2, .inr hx.1⟩]

theorem rewrite_of_not {x : Marked} (hsep : isSeparator x = false) (hx : isBreak x = false) :
    rewrite x = x.1 := by
  rw [rewrite, if_neg]
  rintro ⟨hquoted, hblank | hnewline⟩
  · simp [isSeparator, hblank, hquoted] at hsep
  · simp [isBreak, hnewline, hquoted] at hx

theorem cut_eq {w : List Marked} (hw : ∀ x ∈ w, isSeparator x = false ∧ x.1 ≠ nul) :
    cut w = (w.takeWhile (!isBreak ·)).map Prod.fst := by
  rw [cut]
  induction w with
  | nil => rfl
  | cons x w ih =>
      rw [List.forall_mem_cons] at hw
      cases hx : isBreak x with
      | true => simp [rewrite_of_isBreak hx, hx]
      | false => simp [rewrite_of_not hw.1.1 hx, hw.1.2, hx, ← ih hw.2]

/-- A word is found as it is, if nothing breaks it. -/
theorem cut_eq_map_iff {w : List Marked} (hw : ∀ x ∈ w, isSeparator x = false ∧ x.1 ≠ nul) :
    cut w = w.map Prod.fst ↔ ∀ x ∈ w, isBreak x = false := by
  rw [cut_eq hw]
  constructor
  · intro h
    have hlength := congrArg List.length h
    rw [List.length_map, List.length_map] at hlength
    have hall := (List.takeWhile_prefix (!isBreak ·)).eq_of_length hlength
    rw [List.takeWhile_eq_self_iff] at hall
    simpa using hall
  · intro h
    rw [List.takeWhile_eq_self_iff.mpr fun x hx => by simp [h x hx]]

/-- The last byte of a word is left out exactly if it is what breaks the word. -/
theorem cut_concat_eq_map_iff {w : List Marked} {x : Marked}
    (hw : ∀ y ∈ w ++ [x], isSeparator y = false ∧ y.1 ≠ nul) :
    cut (w ++ [x]) = w.map Prod.fst ↔ (∀ y ∈ w, isBreak y = false) ∧ isBreak x := by
  rw [cut_eq hw]
  clear hw
  induction w with
  | nil => cases hx : isBreak x <;> simp [hx]
  | cons y w ih =>
      rw [List.forall_mem_cons, List.cons_append, List.map_cons]
      cases hy : isBreak y with
      | true => simp [hy]
      | false =>
          rw [List.takeWhile_cons_of_pos (by simp [hy]), List.map_cons, List.cons_inj_right, ih]
          simp

theorem isBreak_iff {x : Marked} : isBreak x ↔ x.1 = newline ∧ x.2 = false := by
  simp [isBreak]

theorem isSeparator_of_isBreak {x : Marked} (hx : isBreak x) : isSeparator x = false := by
  simp [isSeparator, (isBreak_iff.mp hx).1, newline, blank]

theorem newlineLast_iff {marks : List Marked} (hlast : ∀ x ∈ marks.getLast?, x.1 ≠ newline) :
    NewlineLast marks ↔ ∀ x ∈ marks, isBreak x = false := by
  constructor
  · intro h x hx
    rw [← Bool.not_eq_true, isBreak_iff]
    rintro ⟨hnewline, hquoted⟩
    obtain ⟨u, v, rfl⟩ := List.mem_iff_append.mp hx
    obtain rfl := (h u x v rfl hnewline).mp hquoted
    exact hlast x (by simp) hnewline
  · rintro h u x v rfl hx
    refine iff_of_false (fun hquoted => ?_) (fun hnil => ?_)
    · have hnot := h x (by simp)
      rw [isBreak_iff.mpr ⟨hx, hquoted⟩] at hnot
      cases hnot
    · subst hnil
      exact hlast x (by simp) hx

theorem newlineLast_concat_iff {marks : List Marked} {x : Marked} (hx : x.1 = newline) :
    NewlineLast (marks ++ [x]) ↔ (∀ y ∈ marks, isBreak y = false) ∧ isBreak x := by
  constructor
  · intro h
    refine ⟨fun y hy => ?_, isBreak_iff.mpr ⟨hx, (h marks x [] rfl hx).mpr rfl⟩⟩
    rw [← Bool.not_eq_true, isBreak_iff]
    rintro ⟨hnewline, hquoted⟩
    obtain ⟨u, v, rfl⟩ := List.mem_iff_append.mp hy
    have hnil := (h u y (v ++ [x]) (by simp) hnewline).mp hquoted
    simp at hnil
  · rintro ⟨hmarks, hbreak⟩ u y v heq hy
    cases v using List.reverseRecOn with
    | nil =>
        obtain ⟨-, hyx⟩ := List.append_inj' heq rfl
        obtain rfl := (List.cons.inj hyx).1
        exact iff_of_true (isBreak_iff.mp hbreak).2 rfl
    | append_singleton v z =>
        rw [← List.cons_append, ← List.append_assoc] at heq
        obtain ⟨rfl, -⟩ := List.append_inj' heq rfl
        refine iff_of_false (fun hquoted => ?_) (by simp)
        have hnot := hmarks y (by simp)
        rw [isBreak_iff.mpr ⟨hy, hquoted⟩] at hnot
        cases hnot

/-- What breaks the words breaks the text. -/
theorem forall_filter_iff {marks : List Marked} :
    (∀ x ∈ marks.filter (!isSeparator ·), isBreak x = false) ↔ ∀ x ∈ marks, isBreak x = false := by
  constructor
  · intro h x hx
    cases hbreak : isBreak x with
    | false => rfl
    | true =>
        have hmem : x ∈ marks.filter (!isSeparator ·) :=
          List.mem_filter.mpr ⟨hx, by simp [isSeparator_of_isBreak hbreak]⟩
        exact hbreak ▸ h x hmem
  · exact fun h x hx => h x (List.mem_of_mem_filter hx)

theorem forall_mem_flatten_iff {ws : List (List Marked)} :
    (∀ x ∈ ws.flatten, isBreak x = false) ↔ ∀ w ∈ ws, ∀ x ∈ w, isBreak x = false := by
  simp only [List.mem_flatten]
  exact ⟨fun h w hw x hx => h x ⟨w, hw, hx⟩, fun h x ⟨w, hw, hx⟩ => h w hw x hx⟩

/-- A newline behind a blank is found as a word without bytes. -/
theorem map_cut_concat_ne {marks : List Marked} {x : Marked}
    (hlast : ∀ y ∈ marks.getLast?, isSeparator y) (hsep : isSeparator x = false) :
    (words isSeparator (marks ++ [x])).map cut ≠
      (words isSeparator marks).map (List.map Prod.fst) := by
  intro h
  have hlength := congrArg List.length h
  rw [words_concat_of_separator hlast hsep] at hlength
  simp at hlength

theorem map_cut_concat_iff {marks : List Marked} {x y : Marked} (hy : marks.getLast? = some y)
    (hysep : isSeparator y = false) (hsep : isSeparator x = false)
    (hword : ∀ w ∈ words isSeparator (marks ++ [x]), ∀ y ∈ w, isSeparator y = false ∧ y.1 ≠ nul) :
    (words isSeparator (marks ++ [x])).map cut =
        (words isSeparator marks).map (List.map Prod.fst) ↔
      (∀ y ∈ marks, isBreak y = false) ∧ isBreak x := by
  obtain ⟨ws, w, -, -, hmarks, hwords⟩ := exists_words_concat hy hysep hsep
  have hflatten : ws.flatten ++ w = marks.filter (!isSeparator ·) := by
    have hall := flatten_words isSeparator marks
    rwa [hmarks, List.flatten_append, List.flatten_singleton] at hall
  rw [hwords, List.forall_mem_append, List.forall_mem_singleton] at hword
  rw [hwords, hmarks, List.map_append, List.map_append, List.map_singleton, List.map_singleton,
    ← forall_filter_iff, ← hflatten, List.forall_mem_append, forall_mem_flatten_iff, and_assoc,
    ← cut_concat_eq_map_iff hword.2]
  constructor
  · intro h
    obtain ⟨hws, hlast⟩ := List.append_inj' h rfl
    rw [List.map_inj_left] at hws
    exact ⟨fun w' hw' => (cut_eq_map_iff (hword.1 w' hw')).mp (hws w' hw'), (List.cons.inj hlast).1⟩
  · rintro ⟨hws, hlast⟩
    rw [hlast, List.map_congr_left fun w' hw' => (cut_eq_map_iff (hword.1 w' hw')).mpr (hws w' hw')]

theorem marked_dropLast (text : List UInt8) : marked text.dropLast = (marked text).dropLast :=
  markQuotes_dropLast quote false text

/-- A text that ends with a newline, with its marks. -/
theorem exists_marked_concat {text : List UInt8} (hlast : text.getLast? = some newline) :
    ∃ marks x, marked text = marks ++ [x] ∧ marked text.dropLast = marks ∧ x.1 = newline ∧
      isSeparator x = false := by
  have hmarked : (marked text).map Prod.fst = text := map_fst_markQuotes quote false text
  obtain ⟨marks, x, hsplit⟩ := (List.eq_nil_or_concat (marked text)).resolve_left (by
    intro hnil
    rw [← hmarked, hnil] at hlast
    cases hlast)
  rw [List.concat_eq_append] at hsplit
  have hx : x.1 = newline := by
    rw [← hmarked, hsplit, List.getLast?_map, List.getLast?_concat] at hlast
    exact Option.some.inj hlast
  refine ⟨marks, x, hsplit, ?_, hx, by simp [isSeparator, hx, newline, blank]⟩
  rw [marked_dropLast, hsplit, List.dropLast_concat]

/-- The newline is no further word of the text. -/
theorem length_textWords_le (text : List UInt8) :
    (textWords text).length ≤ (words isSeparator (marked text)).length := by
  rw [textWords]
  split_ifs with hlast
  · obtain ⟨marks, x, hsplit, hmarks, -, hsep⟩ := exists_marked_concat hlast
    rw [hsplit, hmarks, List.length_map]
    by_cases hword : ∃ y, marks.getLast? = some y ∧ isSeparator y = false
    · obtain ⟨y, hy, hysep⟩ := hword
      obtain ⟨ws, w, -, -, hwords, hconcat⟩ := exists_words_concat hy hysep hsep
      simp [hwords, hconcat]
    · rw [words_concat_of_separator _ hsep]
      · simp
      · simpa using hword
  · rw [List.length_map]

/-- The words as they are found are those of the text. -/
theorem map_cut_words_eq_iff {text : List UInt8} (hnul : nul ∉ text) :
    (words isSeparator (marked text)).map cut = textWords text ↔
      NewlineLast (marked text) ∧ NewlineAttached (marked text) := by
  have hword : ∀ w ∈ words isSeparator (marked text),
      ∀ x ∈ w, isSeparator x = false ∧ x.1 ≠ nul := by
    intro w hw x hx
    refine ⟨not_of_mem_words hw x hx, ?_⟩
    rintro hxnul
    have hmem := List.mem_map_of_mem (f := Prod.fst) (mem_words_iff.mp ⟨w, hw, hx⟩).1
    rw [marked, map_fst_markQuotes, hxnul] at hmem
    exact hnul hmem
  rw [textWords]
  split_ifs with hlast
  · obtain ⟨marks, x, hsplit, hmarks, hx, hsep⟩ := exists_marked_concat hlast
    rw [hsplit] at hword ⊢
    rw [hmarks, newlineLast_concat_iff hx]
    have hattached : NewlineAttached (marks ++ [x]) ↔
        ∃ y, marks.getLast? = some y ∧ isSeparator y = false := by
      refine ⟨fun h => h marks x rfl hx, fun h u e heq _ => ?_⟩
      obtain ⟨rfl, -⟩ := List.append_inj' heq rfl
      exact h
    rw [hattached]
    by_cases hend : ∃ y, marks.getLast? = some y ∧ isSeparator y = false
    · obtain ⟨y, hy, hysep⟩ := hend
      rw [map_cut_concat_iff hy hysep hsep hword]
      exact (and_iff_left ⟨y, hy, hysep⟩).symm
    · exact iff_of_false (map_cut_concat_ne (by simpa using hend) hsep) fun h => hend h.2
  · have hnot : ∀ x ∈ (marked text).getLast?, x.1 ≠ newline := by
      intro x hx hnewline
      apply hlast
      rw [← map_fst_markQuotes quote false text, ← marked, List.getLast?_map, hx, Option.map_some,
        hnewline]
    have hattached : NewlineAttached (marked text) := by
      intro u e heq he
      exact absurd he (hnot e (by simp [heq]))
    rw [and_iff_left hattached, List.map_inj_left, newlineLast_iff hnot, ← forall_filter_iff,
      ← flatten_words, forall_mem_flatten_iff]
    exact forall₂_congr fun w hw => cut_eq_map_iff (hword w hw)

/-- What stands in front of a byte inside double quotes is no separator. -/
theorem isSeparator_of_quoted {u v : List Marked} {x : Marked} {c : UInt8}
    (h : marked rest = u ++ x :: (c, true) :: v) : isSeparator x = false := by
  obtain ⟨d, q⟩ := x
  have hnext := markQuotes_of_eq_append_cons h
  rw [List.map_cons, markQuotes] at hnext
  have hquoted := (Prod.mk.inj (List.cons.inj hnext).1).2
  rw [← Bool.not_eq_true]
  intro hsep
  simp only [isSeparator, Bool.and_eq_true, decide_eq_true_eq, Bool.not_eq_true'] at hsep
  rw [hsep.1, hsep.2] at hquoted
  cases hquoted

theorem cut_append_nul (w v : List Marked) : cut (w ++ (nul, true) :: v) = cut w := by
  rw [cut, List.map_append, List.map_cons, rewrite_quoted, takeWhile_append_nul, cut]

/-- A NUL inside double quotes ends the string of a word, but not the word. -/
theorem exists_map_cut_words {r z : List Marked} (h : marked rest = r ++ z)
    (hr : ∀ x ∈ r, isEnd x = false) :
    ∃ extra, (words isSeparator r).map cut =
      (words isSeparator (r.takeWhile fun x => x.1 ≠ nul)).map cut ++ extra := by
  obtain ⟨u, hu⟩ : ∃ u, u = r.takeWhile fun x => x.1 ≠ nul := ⟨_, rfl⟩
  have hsplit : (r.takeWhile fun x => x.1 ≠ nul) ++ (r.dropWhile fun x => x.1 ≠ nul) = r :=
    List.takeWhile_append_dropWhile
  rw [← hu] at hsplit ⊢
  cases hdrop : r.dropWhile fun x => x.1 ≠ nul with
  | nil =>
      rw [hdrop, List.append_nil] at hsplit
      exact ⟨[], by rw [hsplit, List.append_nil]⟩
  | cons x v =>
      rw [hdrop] at hsplit
      subst hsplit
      have hx : x = (nul, true) := by
        have hnul := List.head?_dropWhile_not (fun x : Marked => decide (x.1 ≠ nul)) (u ++ x :: v)
        have hend := hr x (by simp)
        obtain ⟨c, q⟩ := x
        obtain rfl : c = nul := by
          rw [hdrop] at hnul
          simpa using hnul
        cases q
        · cases hend
        · rfl
      subst hx
      rw [List.append_assoc, List.cons_append] at h
      have hne : u ≠ [] := by
        rintro rfl
        cases rest with
        | nil => cases h
        | cons c rest => cases h
      obtain ⟨u', y, hconcat⟩ := (List.eq_nil_or_concat u).resolve_left hne
      rw [List.concat_eq_append] at hconcat
      have hlast : isSeparator (u.getLast hne) = false := by
        rw [hconcat, List.append_assoc] at h
        simpa [hconcat] using isSeparator_of_quoted h
      obtain ⟨ws, w, -, -, hwords, happend⟩ := words_append_of_getLast hne hlast
      refine ⟨(words isSeparator (((nul, true) :: v).dropWhile (!isSeparator ·))).map cut, ?_⟩
      rw [happend, hwords, List.takeWhile_cons_of_pos rfl, List.map_append, List.map_cons,
        cut_append_nul, List.map_append, List.map_singleton, List.append_assoc]
      rfl

end AutotestClient.FtpTest
