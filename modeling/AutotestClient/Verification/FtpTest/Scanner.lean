import AutotestClient.Model.FtpTest.Parsecmd
import AutotestClient.Shared.Quotes
import AutotestClient.Shared.Words

/-! # What the scans of a command do

The loops share one pointer. On a buffer whose bytes are marked with whether they stand inside
double quotes, each of them is a scan for the first byte of a kind. -/

namespace AutotestClient.FtpTest

open Shared

variable {before rest : List UInt8} {par : List ℕ}

/-- A byte, and whether it stands inside double quotes. -/
abbrev Marked := UInt8 × Bool

/-- The buffer from the pointer on, outside of double quotes there. -/
def marked (rest : List UInt8) : List Marked := markQuotes quote false rest

/-- A blank that separates words. -/
def isSeparator (e : Marked) : Bool := e.1 = blank && !e.2

/-- A NUL that ends the scan. -/
def isEnd (e : Marked) : Bool := e.1 = nul && !e.2

/-- What is in the buffer after the parse. -/
def rewrite (e : Marked) : UInt8 :=
  if !e.2 ∧ (e.1 = blank ∨ e.1 = newline) then nul else e.1

theorem rewrite_of_isSeparator {e : Marked} (he : isSeparator e) : rewrite e = nul := by
  simp only [isSeparator, Bool.and_eq_true, decide_eq_true_eq] at he
  rw [rewrite, if_pos ⟨he.2, .inl he.1⟩]

theorem rewrite_quoted (c : UInt8) : rewrite (c, true) = c := by
  simp [rewrite]

theorem rewrite_of_next {c : UInt8} (hc : isSeparator (c, false) = false) :
    rewrite (c, false) = if c = newline then nul else c := by
  have hblank : c ≠ blank := by simpa [isSeparator] using hc
  simp [rewrite, hblank]

/-! ## The single scans -/

theorem skipStart_eq_error (h : ∀ c ∈ rest, c = blank ∨ c = nul) :
    skipStart before rest = .error (.read (before.length + rest.length)) := by
  induction rest generalizing before with
  | nil => rfl
  | cons c rest ih =>
      rw [List.forall_mem_cons] at h
      rw [skipStart, if_pos h.1, ih h.2]
      simp only [List.length_append, List.length_cons, List.length_nil]
      congr 2
      omega

theorem skipStart_append (before v : List UInt8) {u : List UInt8} {c : UInt8}
    (hu : ∀ c ∈ u, c = blank ∨ c = nul) (hc : ¬(c = blank ∨ c = nul)) :
    skipStart before (u ++ c :: v) = .ok ⟨before ++ u, c :: v⟩ := by
  induction u generalizing before with
  | nil => rw [List.nil_append, skipStart, if_neg hc, List.append_nil]
  | cons d u ih =>
      rw [List.forall_mem_cons] at hu
      rw [List.cons_append, skipStart, if_pos hu.1, ih _ hu.2, List.append_assoc]
      rfl

theorem closeQuote_eq_error (before : List UInt8) (h : quote ∉ rest) :
    ∃ f, closeQuote before rest = .error f := by
  induction rest generalizing before with
  | nil => exact ⟨_, rfl⟩
  | cons c rest ih =>
      rw [List.mem_cons, not_or] at h
      rw [closeQuote, if_neg (Ne.symm h.1)]
      exact ih _ h.2

theorem closeQuote_append {u v : List UInt8} (hu : quote ∉ u) :
    closeQuote before (u ++ quote :: v) = .ok ⟨before ++ u, quote :: v⟩ := by
  induction u generalizing before with
  | nil => rw [List.nil_append, closeQuote, if_pos rfl, List.append_nil]
  | cons c u ih =>
      rw [List.mem_cons, not_or] at hu
      rw [List.cons_append, closeQuote, if_neg (Ne.symm hu.1), ih hu.2, List.append_assoc]
      rfl

theorem skipBlanks_eq_error (before : List UInt8) (h : ∀ c ∈ rest, c = blank) :
    ∃ f, skipBlanks before rest = .error f := by
  induction rest generalizing before with
  | nil => exact ⟨_, rfl⟩
  | cons c rest ih =>
      rw [List.forall_mem_cons] at h
      rw [skipBlanks, if_pos h.1]
      exact ih _ h.2

theorem skipBlanks_append {u v : List UInt8} {c : UInt8} (hu : ∀ c ∈ u, c = blank)
    (hc : c ≠ blank) :
    skipBlanks before (u ++ c :: v) = .ok ⟨before ++ u.map fun _ => nul, c :: v⟩ := by
  induction u generalizing before with
  | nil => rw [List.nil_append, skipBlanks, if_neg hc, List.map_nil, List.append_nil]
  | cons d u ih =>
      rw [List.forall_mem_cons] at hu
      rw [List.cons_append, skipBlanks, if_pos hu.1, ih hu.2, List.append_assoc]
      rfl

/-! ## The scan over a word -/

/-- A text with a closing quote, from inside the quotes on. -/
theorem markQuotes_true_append {u v : List UInt8} (hu : quote ∉ u) :
    markQuotes quote true (u ++ quote :: v) =
      (u.map (·, true) ++ [(quote, true)]) ++ marked v := by
  rw [markQuotes_append_of_not_mem hu, markQuotes, if_pos rfl, List.append_assoc]
  rfl

theorem marked_cons_quote (v : List UInt8) :
    marked (quote :: v) = (quote, false) :: markQuotes quote true v := rfl

theorem marked_cons {c : UInt8} (hc : c ≠ quote) (v : List UInt8) :
    marked (c :: v) = (c, false) :: marked v := by
  rw [marked, markQuotes, if_neg hc]
  rfl

theorem exists_of_closeQuote {cur : Cursor} (h : closeQuote before rest = .ok cur) :
    ∃ u v, rest = u ++ quote :: v ∧ quote ∉ u ∧ cur = ⟨before ++ u, quote :: v⟩ := by
  by_cases hmem : quote ∈ rest
  · obtain ⟨u, v, rfl, hu⟩ := List.eq_append_cons_of_mem hmem
    rw [closeQuote_append hu] at h
    exact ⟨u, v, rfl, hu, (Except.ok.inj h).symm⟩
  · obtain ⟨f, herror⟩ := closeQuote_eq_error before hmem
    rw [herror] at h
    cases h

theorem not_mem_of_closeQuote {f : Fault} (h : closeQuote before rest = .error f) :
    quote ∉ rest := by
  intro hmem
  obtain ⟨u, v, rfl, hu⟩ := List.eq_append_cons_of_mem hmem
  rw [closeQuote_append hu] at h
  cases h

/-- The first byte of a kind is not among bytes of other kinds. -/
theorem append_eq_append_cons {a b w v : List Marked} {e : Marked} (h : a ++ b = w ++ e :: v)
    (he : e ∉ a) : ∃ w', w = a ++ w' ∧ b = w' ++ e :: v := by
  rcases List.append_eq_append_iff.mp h with ⟨w', hw, hb⟩ | ⟨a', ha, hev⟩
  · exact ⟨w', hw, hb⟩
  · cases a' with
    | nil => exact ⟨[], by simpa using ha.symm, by simpa using hev.symm⟩
    | cons d a' =>
        obtain ⟨rfl, -⟩ := List.cons.inj hev
        exact absurd (ha ▸ List.mem_append_right w List.mem_cons_self) he

theorem not_stop_iff {c : UInt8} :
    ¬(c = blank ∨ c = nul) ↔ isSeparator (c, false) = false ∧ isEnd (c, false) = false := by
  simp [isSeparator, isEnd]

theorem marked_next {c : UInt8} (hc : isSeparator (c, false) = false) :
    (Cursor.next ⟨before, c :: rest⟩).before = before ++ [rewrite (c, false)] := by
  rw [rewrite_of_next hc]
  rfl

theorem eq_of_stop {e : Marked} (he : isSeparator e ∨ isEnd e) :
    e = (blank, false) ∨ e = (nul, false) := by
  obtain ⟨c, q⟩ := e
  cases q
  · simpa [isSeparator, isEnd] using he
  · simp [isSeparator, isEnd] at he

/-- Nothing stops the scan between two quotes. -/
theorem not_mem_quoted {e : Marked} (he : isSeparator e ∨ isEnd e) (u : List UInt8) (q : Bool) :
    e ∉ (quote, q) :: u.map (·, true) := by
  rcases eq_of_stop he with rfl | rfl <;> simp [quote, blank, nul]

/-- The word ends at the first blank or NUL outside of double quotes. -/
theorem skipWord_of_marked {w v : List Marked} {e : Marked} (h : marked rest = w ++ e :: v)
    (hw : ∀ x ∈ w, isSeparator x = false ∧ isEnd x = false) (he : isSeparator e ∨ isEnd e) :
    skipWord before rest = .ok ⟨before ++ w.map rewrite, (e :: v).map Prod.fst⟩ := by
  fun_induction skipWord before rest generalizing w with
  | case1 before => simp [marked, markQuotes] at h
  | case2 before c rest hc =>
      have hnil : w = [] := by
        cases w with
        | nil => rfl
        | cons x w =>
            obtain ⟨rfl, -⟩ := List.cons.inj h
            exact absurd hc (not_stop_iff.mpr (hw _ List.mem_cons_self))
      subst hnil
      rw [List.nil_append] at h
      rw [← h, marked, map_fst_markQuotes, List.map_nil, List.append_nil]
  | case3 before rest f hc hclose =>
      -- without a closing quote, all of the rest is quoted
      rw [marked_cons_quote, markQuotes_of_not_mem (not_mem_of_closeQuote hclose)] at h
      exact absurd (by simp [h]) (not_mem_quoted he rest false)
  | case4 before rest cur hc hclose ih =>
      obtain ⟨u, v', rfl, hu, rfl⟩ := exists_of_closeQuote hclose
      rw [marked_cons_quote, markQuotes_true_append hu, ← List.cons_append] at h
      have hnot : e ∉ (quote, false) :: (u.map (·, true) ++ [(quote, true)]) := by
        simpa using not_mem_quoted he (u ++ [quote]) false
      obtain ⟨w', rfl, hv'⟩ := append_eq_append_cons h hnot
      rw [ih hv' fun x hx => hw x (List.mem_append_right _ hx)]
      simp [Cursor.next, rewrite, quote, newline, blank, Function.comp_def]
  | case5 before c rest hc hquote ih =>
      rw [marked_cons hquote] at h
      cases w with
      | nil =>
          obtain ⟨rfl, -⟩ := List.cons.inj h
          rcases eq_of_stop he with heq | heq
          · exact absurd (.inl (Prod.mk.inj heq).1) hc
          · exact absurd (.inr (Prod.mk.inj heq).1) hc
      | cons x w =>
          obtain ⟨rfl, hrest⟩ := List.cons.inj h
          rw [List.forall_mem_cons] at hw
          rw [ih hrest hw.2, marked_next hw.1.1]
          simp

theorem skipWord_eq_error (before : List UInt8)
    (h : ∀ x ∈ marked rest, isSeparator x = false ∧ isEnd x = false) :
    ∃ f, skipWord before rest = .error f := by
  fun_induction skipWord before rest with
  | case1 before => exact ⟨_, rfl⟩
  | case2 before c rest hc => exact absurd hc (not_stop_iff.mpr (h _ List.mem_cons_self))
  | case3 before rest f hc hclose => exact ⟨f, rfl⟩
  | case4 before rest cur hc hclose ih =>
      obtain ⟨u, v, rfl, hu, rfl⟩ := exists_of_closeQuote hclose
      apply ih
      intro x hx
      apply h
      rw [marked_cons_quote, markQuotes_true_append hu]
      exact List.mem_cons_of_mem _ (List.mem_append_right _ hx)
  | case5 before c rest hc hquote ih =>
      apply ih
      intro x hx
      rw [marked_cons hquote] at h
      exact h x (List.mem_cons_of_mem _ hx)

/-! ## One round of the outer loop -/

/-- After separators the scan is outside of double quotes. -/
theorem marked_of_separators {u s v : List Marked} (h : marked rest = u ++ (s ++ v)) (hs : s ≠ [])
    (hsep : ∀ x ∈ s, isSeparator x) : v = marked (v.map Prod.fst) := by
  obtain ⟨s', x, rfl⟩ := List.eq_nil_or_concat s |>.resolve_left hs
  have hx : x = (blank, false) := by
    have hx := hsep x (by simp)
    simpa [isSeparator, Prod.ext_iff] using hx
  rw [hx, List.concat_eq_append, List.append_assoc, List.singleton_append, ← List.append_assoc] at h
  exact markQuotes_of_eq_append_cons h

theorem eq_blank_of_separators {s : List Marked} (hsep : ∀ x ∈ s, isSeparator x) :
    ∀ c ∈ s.map Prod.fst, c = blank := by
  intro c hc
  obtain ⟨x, hx, rfl⟩ := List.mem_map.mp hc
  have hx := hsep x hx
  simp only [isSeparator, Bool.and_eq_true, decide_eq_true_eq] at hx
  exact hx.1

/-- The byte behind a word and its separators. -/
theorem head_of_separators {w s v : List Marked} {e : Marked} (h : marked rest = w ++ (s ++ e :: v))
    (hsep : ∀ x ∈ s, isSeparator x) (he : isSeparator e = false) (hend : s = [] → isEnd e) :
    e.1 ≠ blank ∧ (e.1 = nul ↔ isEnd e) := by
  have hquoted : e.2 = false := by
    by_cases hs : s = []
    · have he := hend hs
      simp only [isEnd, Bool.and_eq_true, Bool.not_eq_true'] at he
      exact he.2
    · have hmarked := marked_of_separators h hs hsep
      rw [List.map_cons] at hmarked
      rw [(List.cons.inj hmarked).1]
  simp [isSeparator, isEnd, hquoted] at he ⊢
  exact he

/-- A round of the outer loop reads a word and the separators behind it. -/
theorem parseWords_of_marked {w s v : List Marked} {e : Marked}
    (h : marked rest = w ++ (s ++ e :: v))
    (hw : ∀ x ∈ w, isSeparator x = false ∧ isEnd x = false) (hsep : ∀ x ∈ s, isSeparator x)
    (he : isSeparator e = false) (hend : s = [] → isEnd e) (hroom : par.length < nMaxPar) :
    parseWords par ⟨before, rest⟩ =
      if isEnd e then
        .ok ⟨before ++ (w ++ s).map rewrite ++ (e :: v).map Prod.fst, par ++ [before.length]⟩
      else
        parseWords (par ++ [before.length])
          ⟨before ++ (w ++ s).map rewrite, (e :: v).map Prod.fst⟩ := by
  have hrest : rest ≠ [] := by
    rintro rfl
    simp [marked, markQuotes] at h
  obtain ⟨hblank, hnul⟩ := head_of_separators h hsep he hend
  have hword : skipWord before rest =
      .ok ⟨before ++ w.map rewrite, s.map Prod.fst ++ e.1 :: v.map Prod.fst⟩ := by
    cases s with
    | nil => exact skipWord_of_marked h hw (.inr (hend rfl))
    | cons x s =>
        rw [skipWord_of_marked h hw (.inl (hsep x List.mem_cons_self))]
        simp
  have hrewrite : (s.map Prod.fst).map (fun _ => nul) = s.map rewrite := by
    rw [List.map_map]
    exact List.map_congr_left fun x hx => (rewrite_of_isSeparator (hsep x hx)).symm
  rw [parseWords, if_neg hrest, if_neg (Nat.not_le.mpr hroom)]
  show (skipWord before rest >>= _) = _
  rw [hword]
  show (skipBlanks (before ++ w.map rewrite) (s.map Prod.fst ++ e.1 :: v.map Prod.fst) >>= _) = _
  rw [skipBlanks_append (eq_blank_of_separators hsep) hblank, hrewrite, List.map_append,
    ← List.append_assoc]
  show (if some e.1 = some nul then _ else _) = _
  simp only [Option.some.injEq, hnul]
  rfl

/-- Behind a word and its separators the scan goes on with one more parameter. -/
theorem parseWords_next {w s v : List Marked} {e : Marked} (h : marked rest = w ++ (s ++ e :: v))
    (hw : ∀ x ∈ w, isSeparator x = false ∧ isEnd x = false) (hs : s ≠ [])
    (hsep : ∀ x ∈ s, isSeparator x) (he : isSeparator e = false) (hnot : isEnd e = false)
    (hroom : par.length < nMaxPar) :
    parseWords par ⟨before, rest⟩ = parseWords (par ++ [before.length])
        ⟨before ++ (w ++ s).map rewrite, (e :: v).map Prod.fst⟩ ∧
      marked ((e :: v).map Prod.fst) = e :: v := by
  refine ⟨?_, (marked_of_separators h hs hsep).symm⟩
  rw [parseWords_of_marked h hw hsep he (fun hnil => absurd hnil hs) hroom, if_neg (by simp [hnot])]

/-- Behind a word there is nothing but separators. -/
theorem parseWords_of_separators {w s : List Marked} {x : Marked} (h : marked rest = w ++ x :: s)
    (hw : ∀ x ∈ w, isSeparator x = false ∧ isEnd x = false) (hsep : ∀ y ∈ x :: s, isSeparator y)
    (hroom : par.length < nMaxPar) : ∃ f, parseWords par ⟨before, rest⟩ = .error f := by
  have hrest : rest ≠ [] := by
    rintro rfl
    simp [marked, markQuotes] at h
  obtain ⟨f, hf⟩ := skipBlanks_eq_error (before ++ w.map rewrite)
    (eq_blank_of_separators hsep)
  refine ⟨f, ?_⟩
  rw [parseWords, if_neg hrest, if_neg (Nat.not_le.mpr hroom)]
  show (skipWord before rest >>= _) = _
  rw [skipWord_of_marked h hw (.inl (hsep x List.mem_cons_self))]
  show (skipBlanks (before ++ w.map rewrite) ((x :: s).map Prod.fst) >>= _) = _
  rw [hf]
  rfl

/-- If no NUL ends the scan, it leaves the buffer, or there are too many words before that. -/
theorem parseWords_eq_error (par : List ℕ) (before : List UInt8) (hne : rest ≠ [])
    (h : ∀ x ∈ marked rest, isEnd x = false) :
    ∃ f, parseWords par ⟨before, rest⟩ = .error f := by
  induction hn : nMaxPar - par.length generalizing par before rest with
  | zero =>
      rw [parseWords, if_neg hne, if_pos (by omega)]
      exact ⟨_, rfl⟩
  | succ n ih =>
      have hroom : par.length < nMaxPar := by omega
      by_cases hsep : ∃ x ∈ marked rest, isSeparator x
      · obtain ⟨w, x, v, hsplit, hx, hw⟩ := exists_first_separator hsep
        have hword : ∀ x ∈ w, isSeparator x = false ∧ isEnd x = false :=
          fun x hx => ⟨hw x hx, h x (by simp [hsplit, hx])⟩
        have hcut : x :: v = (x :: v).takeWhile isSeparator ++ (x :: v).dropWhile isSeparator :=
          List.takeWhile_append_dropWhile.symm
        have hsne : (x :: v).takeWhile isSeparator ≠ [] := by simp [hx]
        have hall : ∀ y ∈ (x :: v).takeWhile isSeparator, isSeparator y :=
          fun y hy => List.mem_takeWhile_imp hy
        cases hdrop : (x :: v).dropWhile isSeparator with
        | nil =>
            rw [List.dropWhile_eq_nil_iff] at hdrop
            exact parseWords_of_separators hsplit hword hdrop hroom
        | cons e v' =>
            have he : isSeparator e = false := by
              have hfirst := List.head_dropWhile_not isSeparator (l := x :: v) (by simp [hdrop])
              simpa [hdrop] using hfirst
            rw [hcut, hdrop] at hsplit
            have hnot : isEnd e = false := h e (by simp [hsplit])
            obtain ⟨hnext, hmarked⟩ := parseWords_next hsplit hword hsne hall he hnot hroom
            rw [hnext]
            apply ih _ _ (by simp)
            · rw [hmarked]
              intro y hy
              apply h
              rw [hsplit]
              exact List.mem_append_right _ (List.mem_append_right _ hy)
            · rw [List.length_append, List.length_singleton]
              omega
      · obtain ⟨f, hf⟩ := skipWord_eq_error before fun x (hx : x ∈ marked rest) =>
          ⟨by simpa using fun hxs => hsep ⟨x, hx, hxs⟩, h x hx⟩
        refine ⟨f, ?_⟩
        rw [parseWords, if_neg hne, if_neg (Nat.not_le.mpr hroom)]
        show (skipWord before rest >>= _) = _
        rw [hf]
        rfl

end AutotestClient.FtpTest
