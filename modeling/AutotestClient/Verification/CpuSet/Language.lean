import AutotestClient.Model.CpuSet
import Mathlib.Data.List.Forall2

/-! # The language of `parse_cpu_set`

The loop is compared with a lexical scan that reads the same items without any check, and the
scan with the grammar of comma separated lists. -/

namespace AutotestClient.CpuSet

open Shared

/-! ### The lexical scan -/

/-- The numbers of one round as integers: none, one and a `-` that no number follows, or an
item and the text after it. -/
inductive Lexeme where
  | stuck (s : List Char)
  | dangling (s : List Char)
  | item (r : ℤ × ℤ) (next : List Char)

/-- After a first number `v`. -/
def lexRange (v : ℤ) : List Char → Lexeme
  | '-' :: s =>
      match scanNumber s with
      | none => .dangling s
      | some (w, next) => .item (v, w) next
  | next => .item (v, v) next

def lexItem (s : List Char) : Lexeme :=
  match scanNumber s with
  | none => .stuck s
  | some (v, next) => lexRange v next

/-- An item of the text, and whether a comma follows it. -/
structure Item where
  range : ℤ × ℤ
  comma : Bool
  deriving DecidableEq

/-- The items of a text, whether the scan stopped after a dangling `-`, and what is left. -/
structure Scan where
  items : List Item
  dangling : Bool
  rest : List Char
  deriving DecidableEq

def lex : ℕ → List Char → Scan
  | 0, s => ⟨[], false, s⟩
  | _ + 1, [] => ⟨[], false, []⟩
  | rounds + 1, c :: s =>
      match lexItem (c :: s) with
      | .stuck s => ⟨[], false, s⟩
      | .dangling s => ⟨[], true, s⟩
      | .item r next =>
          let scan := lex rounds (skipComma next)
          { scan with items := ⟨r, next.head? = some ','⟩ :: scan.items }

theorem lex_zero (s : List Char) : lex 0 s = ⟨[], false, s⟩ := rfl

theorem lex_nil (rounds : ℕ) : lex rounds [] = ⟨[], false, []⟩ := by
  cases rounds <;> rfl

theorem lex_cons (rounds : ℕ) (c : Char) (s : List Char) :
    lex (rounds + 1) (c :: s) =
      match lexItem (c :: s) with
      | .stuck s => ⟨[], false, s⟩
      | .dangling s => ⟨[], true, s⟩
      | .item r next =>
          let scan := lex rounds (skipComma next)
          { scan with items := ⟨r, next.head? = some ','⟩ :: scan.items } := by
  rfl

def lexText (s : List Char) : Scan := lex s.length s

/-! ### The loop and the scan -/

/-- What is left of a number after `strtol` and the cast. -/
def cut (v : ℤ) : ℤ := toInt (saturate v)

def cutRange (r : ℤ × ℤ) : ℤ × ℤ := (cut r.1, cut r.2)

def Lexeme.toItemRead : Lexeme → ItemRead
  | .stuck s => .broke s
  | .dangling s => .broke s
  | .item r next => .item (cut r.1) (cut r.2) next

theorem strtol_of_none {s : List Char} (h : scanNumber s = none) : strtol s = (0, s) := by
  simp [strtol, h]

theorem strtol_of_some {s next : List Char} {v : ℤ} (h : scanNumber s = some (v, next)) :
    strtol s = (saturate v, next) := by
  simp [strtol, h]

theorem lexRange_of_ne {next : List Char} (h : next.head? ≠ some '-') (v : ℤ) :
    lexRange v next = .item (v, v) next := by
  unfold lexRange
  split
  · simp at h
  · rfl

theorem readItem_eq (s : List Char) : readItem s = (lexItem s).toItemRead := by
  have hnext := strtol_next_eq_iff s
  cases h : scanNumber s with
  | none => simp [readItem, lexItem, h, strtol_of_none h, Lexeme.toItemRead]
  | some r =>
      obtain ⟨v, next⟩ := r
      rw [h, strtol_of_some h] at hnext
      have hne : next ≠ s := fun heq => by cases hnext.mp heq
      simp only [readItem, strtol_of_some h, if_neg hne, lexItem, h]
      split
      · rename_i s'
        have hnext' := strtol_next_eq_iff s'
        cases h' : scanNumber s' with
        | none => simp [lexRange, h', strtol_of_none h', Lexeme.toItemRead]
        | some r' =>
            obtain ⟨w, next'⟩ := r'
            rw [h', strtol_of_some h'] at hnext'
            have hne' : next' ≠ s' := fun heq => by cases hnext'.mp heq
            simp [lexRange, h', strtol_of_some h', hne', Lexeme.toItemRead, cut]
      · rename_i hdash
        have hhead : next.head? ≠ some '-' := by
          intro hhead
          obtain ⟨t, rfl⟩ := List.head?_eq_some_iff.mp hhead
          exact hdash t rfl
        rw [lexRange_of_ne hhead]
        rfl

theorem checkItem_eq_none_iff (badRange : String) (start stop : ℤ) :
    checkItem badRange start stop = none ↔ InRange (start, stop) := by
  unfold checkItem InRange
  split_ifs <;> simp <;> omega

theorem finish_snd_eq_none_iff (cpus : Finset ℕ) (s : List Char) :
    (finish cpus s).2 = none ↔ s = [] := by
  cases s <;> simp [finish]

theorem parseLoop_cons (badRange : String) (rounds : ℕ) (c : Char) (s : List Char)
    (cpus : Finset ℕ) :
    parseLoop badRange (rounds + 1) (c :: s) cpus =
      match readItem (c :: s) with
      | .broke s => finish cpus s
      | .item start stop next =>
          match checkItem badRange start stop with
          | some message => (cpus, some message)
          | none =>
              parseLoop badRange rounds (skipComma next)
                (cpus ∪ Finset.Icc start.toNat stop.toNat) := by
  rfl

theorem parseLoop_zero (badRange : String) (s : List Char) (cpus : Finset ℕ) :
    parseLoop badRange 0 s cpus = finish cpus s := rfl

theorem parseLoop_nil (badRange : String) (rounds : ℕ) (cpus : Finset ℕ) :
    parseLoop badRange rounds [] cpus = (cpus, none) := by
  cases rounds <;> rfl

/-- The loop succeeds exactly if the scan gets to the end of the text and what is left of
the numbers is in range. -/
theorem parseLoop_eq_none_iff (badRange : String) (rounds : ℕ) (s : List Char)
    (cpus : Finset ℕ) :
    (parseLoop badRange rounds s cpus).2 = none ↔
      (lex rounds s).rest = [] ∧ ∀ i ∈ (lex rounds s).items, InRange (cutRange i.range) := by
  induction rounds generalizing s cpus with
  | zero => simpa [parseLoop_zero, lex_zero] using finish_snd_eq_none_iff cpus s
  | succ rounds ih =>
      cases s with
      | nil => simp [parseLoop_nil, lex_nil]
      | cons c s =>
          simp only [parseLoop_cons, lex_cons, readItem_eq]
          cases lexItem (c :: s) with
          | stuck s => simp [Lexeme.toItemRead, finish_snd_eq_none_iff]
          | dangling s => simp [Lexeme.toItemRead, finish_snd_eq_none_iff]
          | item r next =>
              have hcheck := checkItem_eq_none_iff badRange (cut r.1) (cut r.2)
              simp only [Lexeme.toItemRead, List.forall_mem_cons]
              cases hmsg : checkItem badRange (cut r.1) (cut r.2) with
              | none =>
                  have hin : InRange (cutRange r) := hcheck.mp hmsg
                  rw [ih, and_iff_right hin]
              | some message =>
                  have hout : ¬InRange (cutRange r) := fun hin => by
                    rw [hcheck.mpr hin] at hmsg
                    cases hmsg
                  simp [hout]

/-- Then it has collected the ranges that are left of the items. -/
theorem parseLoop_fst {badRange : String} {rounds : ℕ} {s : List Char} {cpus : Finset ℕ}
    (h : (parseLoop badRange rounds s cpus).2 = none) :
    (parseLoop badRange rounds s cpus).1 =
      cpus ∪ union ((lex rounds s).items.map fun i => cutRange i.range) := by
  have hfinish (cpus : Finset ℕ) (s : List Char) : (finish cpus s).1 = cpus := by
    cases s <;> rfl
  induction rounds generalizing s cpus with
  | zero => simpa [parseLoop_zero, lex_zero, union] using hfinish cpus s
  | succ rounds ih =>
      cases s with
      | nil => simp [parseLoop_nil, lex_nil, union]
      | cons c s =>
          simp only [parseLoop_cons, lex_cons, readItem_eq] at h ⊢
          cases hlex : lexItem (c :: s) with
          | stuck s => simp [Lexeme.toItemRead, hfinish, union]
          | dangling s => simp [Lexeme.toItemRead, hfinish, union]
          | item r next =>
              simp only [hlex, Lexeme.toItemRead] at h ⊢
              cases hmsg : checkItem badRange (cut r.1) (cut r.2) with
              | some message => simp [hmsg] at h
              | none =>
                  simp only [hmsg] at h ⊢
                  rw [ih h, Finset.union_assoc]
                  rfl

/-! ### The grammar and the scan -/

/-- A comma after every item but the last. -/
def Separated : List Item → Prop
  | [] => True
  | [i] => i.comma = false
  | i :: j :: items => i.comma = true ∧ Separated (j :: items)

theorem stops_comma (s : List Char) : Stops (',' :: s) := by
  rintro c ⟨⟩
  decide

theorem stops_dash (s : List Char) : Stops ('-' :: s) := by
  rintro c ⟨⟩
  decide

/-- An item is read up to a comma or the end of the text. -/
theorem lexItem_append {t rest : List Char} {r : ℤ × ℤ} (h : ItemText t r) (hrest : Stops rest)
    (hdash : rest.head? ≠ some '-') : lexItem (t ++ rest) = .item r rest := by
  cases h with
  | single h => simp [lexItem, scanNumber_append h hrest, lexRange_of_ne hdash]
  | @range t t' v w h h' =>
      have hfirst := scanNumber_append h (stops_dash (t' ++ rest))
      rw [List.append_assoc, List.cons_append, lexItem, hfirst]
      simp [lexRange, scanNumber_append h' hrest]

theorem itemText_of_lexItem {s next : List Char} {r : ℤ × ℤ} (h : lexItem s = .item r next) :
    ∃ t, s = t ++ next ∧ ItemText t r := by
  unfold lexItem at h
  cases hscan : scanNumber s with
  | none => simp [hscan] at h
  | some p =>
      obtain ⟨v, rest⟩ := p
      obtain ⟨t, rfl, ht⟩ := numeral_of_scanNumber hscan
      simp only [hscan] at h
      unfold lexRange at h
      split at h
      · rename_i s'
        cases hscan' : scanNumber s' with
        | none => simp [hscan'] at h
        | some p' =>
            obtain ⟨w, rest'⟩ := p'
            obtain ⟨t', rfl, ht'⟩ := numeral_of_scanNumber hscan'
            simp only [hscan', Lexeme.item.injEq] at h
            obtain ⟨rfl, rfl⟩ := h
            exact ⟨t ++ '-' :: t', by simp, .range ht ht'⟩
      · cases h
        exact ⟨t, rfl, .single ht⟩

theorem ItemText.ne_nil {t : List Char} {r : ℤ × ℤ} (h : ItemText t r) : t ≠ [] := by
  cases h with
  | single h => exact h.ne_nil
  | range h h' => simp

theorem lex_item {t s next : List Char} {r : ℤ × ℤ} (hne : t ≠ []) {rounds : ℕ}
    (h : lexItem (t ++ s) = .item r next) :
    lex (rounds + 1) (t ++ s) =
      { lex rounds (skipComma next) with
        items := ⟨r, next.head? = some ','⟩ :: (lex rounds (skipComma next)).items } := by
  obtain ⟨c, t, rfl⟩ := List.exists_cons_of_ne_nil hne
  rw [List.cons_append] at h ⊢
  simp [lex_cons, h]

/-- The scan of a comma separated list finds its items. -/
theorem lex_intercalate {items : List (List Char)} {ranges : List (ℤ × ℤ)}
    (h : List.Forall₂ ItemText items ranges) {rounds : ℕ}
    (hrounds : ([','].intercalate items).length ≤ rounds) :
    ∃ is, lex rounds ([','].intercalate items) = ⟨is, false, []⟩ ∧ Separated is ∧
      is.map Item.range = ranges := by
  induction h generalizing rounds with
  | nil => exact ⟨[], lex_nil rounds, trivial, rfl⟩
  | @cons t r items ranges ht hrest ih =>
      have hpos := List.length_pos_iff.mpr ht.ne_nil
      cases hrest with
      | nil =>
          have hlex := lexItem_append ht stops_nil (by simp)
          rw [List.intercalate_singleton] at hrounds ⊢
          obtain ⟨rounds, rfl⟩ : ∃ m, rounds = m + 1 := Nat.exists_eq_succ_of_ne_zero (by omega)
          rw [← List.append_nil t, lex_item ht.ne_nil hlex]
          simp [skipComma, lex_nil, Separated]
      | @cons t' r' items ranges ht' hrest =>
          have hlex := lexItem_append ht (stops_comma ([','].intercalate (t' :: items))) (by simp)
          rw [List.intercalate_cons_cons, List.append_assoc, List.singleton_append] at hrounds ⊢
          simp only [List.length_append, List.length_cons] at hrounds
          obtain ⟨rounds, rfl⟩ : ∃ m, rounds = m + 1 := Nat.exists_eq_succ_of_ne_zero (by omega)
          obtain ⟨is, his, hsep, hranges⟩ := ih (by omega : _ ≤ rounds)
          rw [lex_item ht.ne_nil hlex]
          obtain ⟨i, is, rfl⟩ : ∃ i is', is = i :: is' :=
            List.exists_cons_of_ne_nil fun hnil => by simp [hnil] at hranges
          exact ⟨⟨r, true⟩ :: i :: is, by simp [skipComma, his], ⟨rfl, hsep⟩,
            congrArg (r :: ·) hranges⟩

theorem listText_single {t : List Char} {r : ℤ × ℤ} (h : ItemText t r) : ListText t [r] := by
  have hlist := ListText.mk (.cons h .nil)
  rwa [List.intercalate_singleton] at hlist

theorem listText_cons {t s : List Char} {r : ℤ × ℤ} {ranges : List (ℤ × ℤ)} (h : ItemText t r)
    (hs : ListText s ranges) (hne : ranges ≠ []) : ListText (t ++ ',' :: s) (r :: ranges) := by
  obtain ⟨hitems⟩ := hs
  have hlist := ListText.mk (.cons h hitems)
  cases hitems with
  | nil => exact absurd rfl hne
  | cons =>
      rwa [List.intercalate_cons_cons, List.append_assoc, List.singleton_append] at hlist

theorem eq_of_lexItem_stuck {s s' : List Char} (h : lexItem s = .stuck s') : s' = s := by
  unfold lexItem at h
  split at h
  · cases h
    rfl
  · unfold lexRange at h
    split at h
    · split at h <;> cases h
    · cases h

/-- A scan without items, not even half a one, has read nothing. -/
theorem eq_nil_of_lex {rounds : ℕ} {s : List Char} (hitems : (lex rounds s).items = [])
    (hdangling : (lex rounds s).dangling = false) (hrest : (lex rounds s).rest = []) : s = [] := by
  cases rounds with
  | zero => exact hrest
  | succ rounds =>
      cases s with
      | nil => rfl
      | cons c s =>
          simp only [lex_cons] at hitems hdangling hrest
          cases hlex : lexItem (c :: s) with
          | stuck s' =>
              have hs' := eq_of_lexItem_stuck hlex
              simp [hlex, hs'] at hrest
          | dangling s' => simp [hlex] at hdangling
          | item r next => simp [hlex] at hitems

theorem skipComma_of_ne {s : List Char} (h : s.head? ≠ some ',') : skipComma s = s := by
  unfold skipComma
  split
  · simp at h
  · rfl

/-- A text that is scanned to its end into separated items is the list of them. -/
theorem listText_of_lex {rounds : ℕ} {s : List Char} (hrest : (lex rounds s).rest = [])
    (hdangling : (lex rounds s).dangling = false) (hsep : Separated (lex rounds s).items) :
    ListText s ((lex rounds s).items.map Item.range) := by
  induction rounds generalizing s with
  | zero =>
      have hs : s = [] := hrest
      subst hs
      exact .mk .nil
  | succ rounds ih =>
      cases s with
      | nil => exact .mk .nil
      | cons c s =>
          simp only [lex_cons] at hrest hdangling hsep ⊢
          cases hlex : lexItem (c :: s) with
          | stuck s' =>
              have hs' := eq_of_lexItem_stuck hlex
              simp [hlex, hs'] at hrest
          | dangling s' => simp [hlex] at hdangling
          | item r next =>
              simp only [hlex] at hrest hdangling hsep ⊢
              obtain ⟨t, ht, hitem⟩ := itemText_of_lexItem hlex
              rw [ht]
              cases hitems : (lex rounds (skipComma next)).items with
              | nil =>
                  -- The last item: no comma follows, so nothing does.
                  simp only [hitems, Separated, decide_eq_false_iff_not] at hsep
                  have hnil := eq_nil_of_lex hitems hdangling hrest
                  rw [skipComma_of_ne hsep] at hnil
                  rw [hnil, List.append_nil]
                  exact listText_single hitem
              | cons j items =>
                  simp only [hitems, Separated, decide_eq_true_eq] at hsep
                  obtain ⟨s', rfl⟩ := List.head?_eq_some_iff.mp hsep.1
                  have hlist := ih hrest hdangling (hitems ▸ hsep.2)
                  simp only [hitems, List.map_cons] at hlist ⊢
                  exact listText_cons hitem hlist (by simp)

theorem lexText_of_listText {s : List Char} {ranges : List (ℤ × ℤ)} (h : ListText s ranges) :
    ∃ is, lexText s = ⟨is, false, []⟩ ∧ Separated is ∧ is.map Item.range = ranges := by
  obtain ⟨hitems⟩ := h
  exact lex_intercalate hitems le_rfl

/-! ### Loose texts -/

/-- The text `rest` does not go on the item `t`: it begins with no comma, no longer part of it is an
item, and there is no dash after a single number. -/
structure Ends (t rest : List Char) : Prop where
  comma : rest.head? ≠ some ','
  longest : ∀ u, u ≠ [] → u <+: rest → ¬∃ r, ItemText (t ++ u) r
  dash : (∃ v, Numeral t v) → rest.head? ≠ some '-'

/-- `LooseText s items dangling`: `s` is made of these items, with commas behind some of them, and
with a number and a `-` at its end if `dangling`. -/
inductive LooseText : List Char → List Item → Bool → Prop where
  | done : LooseText [] [] false
  | dangling {t : List Char} {v : ℤ} (h : Numeral t v) : LooseText (t ++ ['-']) [] true
  | comma {t s : List Char} {r : ℤ × ℤ} {items : List Item} {dangling : Bool}
      (h : ItemText t r) (hs : LooseText s items dangling) :
      LooseText (t ++ ',' :: s) (⟨r, true⟩ :: items) dangling
  | next {t s : List Char} {r : ℤ × ℤ} {items : List Item} {dangling : Bool}
      (h : ItemText t r) (hend : Ends t s) (hs : LooseText s items dangling) :
      LooseText (t ++ s) (⟨r, false⟩ :: items) dangling

/-- A number is read up to a dash. -/
theorem not_numeral_dash {t s : List Char} {v : ℤ} (h : Numeral t v) :
    ¬∃ w, Numeral (t ++ '-' :: s) w := by
  rintro ⟨w, hw⟩
  have hscan := scanNumber_append hw stops_nil
  rw [List.append_nil, scanNumber_append h (stops_dash s)] at hscan
  cases (Prod.mk.inj (Option.some.inj hscan)).2

theorem eq_of_append_dash {t t' s s' : List Char} {v w : ℤ} (h : Numeral t v) (h' : Numeral t' w)
    (heq : t ++ '-' :: s = t' ++ '-' :: s') : s = s' := by
  have hscan := scanNumber_append h (stops_dash s)
  rw [heq, scanNumber_append h' (stops_dash s')] at hscan
  exact ((List.cons.inj (Prod.mk.inj (Option.some.inj hscan)).2).2).symm

/-- An item is read up to a text that does not go on it. -/
theorem lexItem_ends {t rest : List Char} {r : ℤ × ℤ} (h : ItemText t r) (hend : Ends t rest) :
    lexItem (t ++ rest) = .item r rest := by
  cases h with
  | @single t v h =>
      have hscan : scanNumber (t ++ rest) = some (v, rest) := by
        refine scanNumber_eq_some_iff.mpr ⟨t, rfl, h, ?_⟩
        rintro u hne hu ⟨w, hw⟩
        exact hend.longest u hne hu ⟨_, .single hw⟩
      rw [lexItem, hscan]
      exact lexRange_of_ne (hend.dash ⟨v, h⟩) v
  | @range t t' v w h h' =>
      have hfirst := scanNumber_append h (stops_dash (t' ++ rest))
      have hscan : scanNumber (t' ++ rest) = some (w, rest) := by
        refine scanNumber_eq_some_iff.mpr ⟨t', rfl, h', ?_⟩
        rintro u hne hu ⟨x, hx⟩
        refine hend.longest u hne hu ⟨(v, x), ?_⟩
        rw [List.append_assoc, List.cons_append]
        exact .range h hx
      rw [List.append_assoc, List.cons_append, lexItem, hfirst]
      simp [lexRange, hscan]

/-- What is read as an item is one, and the text does not go on it. -/
theorem ends_of_lexItem {s next : List Char} {r : ℤ × ℤ} (h : lexItem s = .item r next)
    (hcomma : next.head? ≠ some ',') : ∃ t, s = t ++ next ∧ ItemText t r ∧ Ends t next := by
  unfold lexItem at h
  cases hscan : scanNumber s with
  | none => simp [hscan] at h
  | some p =>
      obtain ⟨v, rest⟩ := p
      obtain ⟨t, rfl, ht, hlongest⟩ := scanNumber_eq_some_iff.mp hscan
      simp only [hscan] at h
      by_cases hdash : rest.head? = some '-'
      · obtain ⟨s', rfl⟩ := List.head?_eq_some_iff.mp hdash
        rw [lexRange] at h
        cases hscan' : scanNumber s' with
        | none => simp [hscan'] at h
        | some p' =>
            obtain ⟨w, rest'⟩ := p'
            obtain ⟨t', rfl, ht', hlongest'⟩ := scanNumber_eq_some_iff.mp hscan'
            simp only [hscan', Lexeme.item.injEq] at h
            obtain ⟨rfl, rfl⟩ := h
            refine ⟨t ++ '-' :: t', by simp, .range ht ht', hcomma, ?_, ?_⟩
            · rintro u hne hu ⟨r', hr'⟩
              have hsplit : t ++ '-' :: t' ++ u = t ++ '-' :: (t' ++ u) := by simp
              rw [hsplit] at hr'
              generalize htext : t ++ '-' :: (t' ++ u) = text at hr'
              cases hr' with
              | single hx => exact not_numeral_dash ht ⟨_, htext ▸ hx⟩
              | range hx hy =>
                  rw [eq_of_append_dash hx ht htext.symm] at hy
                  exact hlongest' u hne hu ⟨_, hy⟩
            · exact fun hnumeral => absurd hnumeral (not_numeral_dash ht)
      · rw [lexRange_of_ne hdash] at h
        cases h
        refine ⟨t, rfl, .single ht, hcomma, ?_, fun _ => hdash⟩
        rintro u hne ⟨z, rfl⟩ ⟨r', hr'⟩
        generalize htext : t ++ u = text at hr'
        cases hr' with
        | single hx => exact hlongest u hne (List.prefix_append u z) ⟨_, htext ▸ hx⟩
        | @range a b x y hx hy =>
            have hscan' := scanNumber_append hx (stops_dash (b ++ z))
            have hsplit : a ++ '-' :: (b ++ z) = t ++ (u ++ z) := by
              rw [← List.append_assoc, htext]
              simp
            rw [hsplit, hscan] at hscan'
            rw [(Prod.mk.inj (Option.some.inj hscan')).2] at hdash
            exact hdash rfl

theorem lexItem_dangling {t : List Char} {v : ℤ} (h : Numeral t v) :
    lexItem (t ++ ['-']) = .dangling [] := by
  rw [lexItem, scanNumber_append h (stops_dash [])]
  rfl

theorem numeral_of_lexItem_dangling {s s' : List Char} (h : lexItem s = .dangling s') :
    ∃ t v, s = t ++ '-' :: s' ∧ Numeral t v := by
  unfold lexItem at h
  cases hscan : scanNumber s with
  | none => simp [hscan] at h
  | some p =>
      obtain ⟨v, rest⟩ := p
      obtain ⟨t, rfl, ht⟩ := numeral_of_scanNumber hscan
      simp only [hscan] at h
      by_cases hdash : rest.head? = some '-'
      · obtain ⟨z, rfl⟩ := List.head?_eq_some_iff.mp hdash
        rw [lexRange] at h
        cases hscan' : scanNumber z with
        | none =>
            simp only [hscan', Lexeme.dangling.injEq] at h
            exact ⟨t, v, by rw [h], ht⟩
        | some p' => simp [hscan'] at h
      · rw [lexRange_of_ne hdash] at h
        cases h

/-- The scan of a loose text gets to its end. -/
theorem lex_of_looseText {s : List Char} {items : List Item} {dangling : Bool}
    (h : LooseText s items dangling) {rounds : ℕ} (hrounds : s.length ≤ rounds) :
    lex rounds s = ⟨items, dangling, []⟩ := by
  induction h generalizing rounds with
  | done => exact lex_nil rounds
  | @dangling t v h =>
      obtain ⟨c, t', rfl⟩ := List.exists_cons_of_ne_nil h.ne_nil
      obtain ⟨rounds, rfl⟩ : ∃ m, rounds = m + 1 :=
        Nat.exists_eq_succ_of_ne_zero (by simp at hrounds; omega)
      have hlex := lexItem_dangling h
      rw [List.cons_append] at hlex ⊢
      simp [lex_cons, hlex]
  | @comma t s r items dangling h hs ih =>
      have hpos := List.length_pos_iff.mpr h.ne_nil
      rw [List.length_append, List.length_cons] at hrounds
      obtain ⟨rounds, rfl⟩ : ∃ m, rounds = m + 1 := Nat.exists_eq_succ_of_ne_zero (by omega)
      rw [lex_item h.ne_nil (lexItem_append h (stops_comma s) (by simp))]
      simp [skipComma, ih (by omega : s.length ≤ rounds)]
  | @next t s r items dangling h hend hs ih =>
      have hpos := List.length_pos_iff.mpr h.ne_nil
      rw [List.length_append] at hrounds
      obtain ⟨rounds, rfl⟩ : ∃ m, rounds = m + 1 := Nat.exists_eq_succ_of_ne_zero (by omega)
      rw [lex_item h.ne_nil (lexItem_ends h hend), skipComma_of_ne hend.comma,
        ih (by omega : s.length ≤ rounds)]
      simp [hend.comma]

/-- A text that is scanned to its end is loose. -/
theorem looseText_of_lex {rounds : ℕ} {s : List Char} (hrest : (lex rounds s).rest = []) :
    LooseText s (lex rounds s).items (lex rounds s).dangling := by
  induction rounds generalizing s with
  | zero =>
      have hs : s = [] := hrest
      subst hs
      exact .done
  | succ rounds ih =>
      cases s with
      | nil => exact .done
      | cons c s =>
          simp only [lex_cons] at hrest ⊢
          cases hlex : lexItem (c :: s) with
          | stuck s' =>
              have hs' := eq_of_lexItem_stuck hlex
              simp [hlex, hs'] at hrest
          | dangling s' =>
              obtain ⟨t, v, ht, hv⟩ := numeral_of_lexItem_dangling hlex
              have hs' : s' = [] := by simpa [hlex] using hrest
              rw [ht, hs']
              exact .dangling hv
          | item r next =>
              simp only [hlex] at hrest ⊢
              have hloose := ih hrest
              by_cases hcomma : next.head? = some ','
              · obtain ⟨s', rfl⟩ := List.head?_eq_some_iff.mp hcomma
                obtain ⟨t, ht, hitem⟩ := itemText_of_lexItem hlex
                rw [ht]
                exact .comma hitem hloose
              · obtain ⟨t, ht, hitem, hend⟩ := ends_of_lexItem hlex hcomma
                rw [skipComma_of_ne hcomma] at hloose ⊢
                rw [ht, decide_eq_false hcomma]
                exact .next hitem hend hloose

theorem looseText_iff {s : List Char} {items : List Item} {dangling : Bool} :
    LooseText s items dangling ↔ lexText s = ⟨items, dangling, []⟩ := by
  constructor
  · exact fun h => lex_of_looseText h le_rfl
  · intro h
    have hloose : LooseText s (lexText s).items (lexText s).dangling :=
      looseText_of_lex (by rw [← lexText, h])
    rwa [h] at hloose

/-! ### When the language is accepted exactly -/

theorem cutRange_of_inRange {r : ℤ × ℤ} (h : InRange r) : cutRange r = r := by
  have hcut {v : ℤ} (h0 : 0 ≤ v) (h1 : v < 1024) : cut v = v := by
    have hsat : saturate v = v := by
      unfold saturate
      omega
    rw [cut, hsat, toInt, BitVec.toInt_ofInt]
    apply Int.bmod_eq_of_le <;> omega
  obtain ⟨h0, hle, h1⟩ := h
  have h1 : r.2 < 1024 := h1
  exact Prod.ext (hcut h0 (by omega)) (hcut (by omega) h1)

section Parse

variable (badRange : String)

theorem parseText_eq_none_iff (s : List Char) :
    (parseText badRange s).2 = none ↔
      (lexText s).rest = [] ∧ ∀ i ∈ (lexText s).items, InRange (cutRange i.range) :=
  parseLoop_eq_none_iff badRange s.length s ∅

/-- Every text of the language is accepted, and gives the union of its ranges. -/
theorem parseText_of_listText {s : List Char} {ranges : List (ℤ × ℤ)} (h : ListText s ranges)
    (hin : ∀ r ∈ ranges, InRange r) : parseText badRange s = (union ranges, none) := by
  obtain ⟨is, hlex, -, rfl⟩ := lexText_of_listText h
  have hcuts : is.map (fun i => cutRange i.range) = is.map Item.range :=
    List.map_congr_left fun i hi => cutRange_of_inRange (hin _ (List.mem_map_of_mem hi))
  have hnone : (parseText badRange s).2 = none := by
    rw [parseText_eq_none_iff, hlex]
    refine ⟨rfl, fun i hi => ?_⟩
    have hi := hin _ (List.mem_map_of_mem hi)
    rwa [cutRange_of_inRange hi]
  have hset : (parseText badRange s).1 = union ((lexText s).items.map fun i => cutRange i.range) :=
    (parseLoop_fst hnone).trans (Finset.empty_union _)
  rw [hlex, hcuts] at hset
  exact Prod.ext hset hnone

end Parse

/-- `parse` accepts `s` exactly if it is a list of ranges of CPU numbers, and then yields the
union of them. -/
structure Recognises (parse : List Char → Finset ℕ × Option String) (s : List Char) : Prop where
  accepts : (parse s).2 = none ↔ ∃ ranges, ListText s ranges ∧ ∀ r ∈ ranges, InRange r
  yields : (parse s).2 = none → ∀ ranges, ListText s ranges → (parse s).1 = union ranges

/-- The malformed texts that are accepted: loose ones in which a `-` dangles, the commas are not
between the items, or a range is none of CPU numbers, but what `strtol` and the cast leave of each
range is one. -/
def Misread (s : List Char) : Prop :=
  ∃ items dangling, LooseText s items dangling ∧
    (dangling = true ∨ ¬Separated items ∨ ∃ i ∈ items, ¬InRange i.range) ∧
    ∀ i ∈ items, InRange (cutRange i.range)

/-- A text that is accepted and not misread is a list of the ranges that were read. -/
theorem listText_of_accepted {badRange : String} {s : List Char} (hok : ¬Misread s)
    (h : (parseText badRange s).2 = none) :
    ListText s ((lexText s).items.map Item.range) ∧
      ∀ r ∈ (lexText s).items.map Item.range, InRange r := by
  obtain ⟨hend, hin⟩ := (parseText_eq_none_iff badRange s).mp h
  have hright : ¬((lexText s).dangling = true ∨ ¬Separated (lexText s).items ∨
      ∃ i ∈ (lexText s).items, ¬InRange i.range) :=
    fun hwrong => hok ⟨_, _, looseText_of_lex hend, hwrong, hin⟩
  simp only [not_or, not_not, not_exists, not_and] at hright
  obtain ⟨hdangling, hsep, hranges⟩ := hright
  refine ⟨listText_of_lex hend (Bool.eq_false_iff.mpr hdangling) hsep, ?_⟩
  intro r hr
  obtain ⟨i, hi, rfl⟩ := List.mem_map.mp hr
  exact hranges i hi

theorem recognises_parseText_iff (badRange : String) (s : List Char) :
    Recognises (parseText badRange) s ↔ ¬Misread s := by
  constructor
  · rintro ⟨haccepts, -⟩ ⟨items, dangling, hloose, hwrong, hin⟩
    have hscan := looseText_iff.mp hloose
    have hnone : (parseText badRange s).2 = none := by
      rw [parseText_eq_none_iff, hscan]
      exact ⟨rfl, hin⟩
    obtain ⟨ranges, hlist, hranges⟩ := haccepts.mp hnone
    obtain ⟨is, hlex, hsep, rfl⟩ := lexText_of_listText hlist
    rw [hscan, Scan.mk.injEq] at hlex
    obtain ⟨rfl, rfl, -⟩ := hlex
    rcases hwrong with hdangling | hcommas | ⟨i, hi, hout⟩
    · cases hdangling
    · exact hcommas hsep
    · exact hout (hranges _ (List.mem_map_of_mem hi))
  · intro hok
    refine ⟨⟨fun h => ⟨_, listText_of_accepted hok h⟩, ?_⟩, ?_⟩
    · rintro ⟨ranges, htext, hin⟩
      rw [parseText_of_listText badRange htext hin]
    · intro h ranges htext
      obtain ⟨-, hin⟩ := listText_of_accepted hok h
      obtain ⟨is, hlex, -, rfl⟩ := lexText_of_listText htext
      rw [hlex] at hin
      rw [parseText_of_listText badRange htext hin]

/-- Both copies of `parse_cpu_set` accept exactly the documented language on the texts that
they do not misread. -/
theorem parseCpuSet_language_iff (s : List Char) :
    (Recognises parseCpuSet s ↔ ¬Misread s) ∧ (Recognises checktscParseCpuSet s ↔ ¬Misread s) :=
  ⟨recognises_parseText_iff _ s, recognises_parseText_iff _ s⟩

/-- `5-` is accepted, as the empty set. -/
theorem parseCpuSet_dangling : parseCpuSet ['5', '-'] = (∅, none) ∧
    (¬∃ ranges, ListText ['5', '-'] ranges ∧ ∀ r ∈ ranges, InRange r) ∧
    ¬Recognises parseCpuSet ['5', '-'] := by
  have hparse : parseCpuSet ['5', '-'] = (∅, none) := by decide
  have hnot : ¬∃ ranges, ListText ['5', '-'] ranges ∧ ∀ r ∈ ranges, InRange r := by
    rintro ⟨ranges, hlist, -⟩
    obtain ⟨is, hlex, -, -⟩ := lexText_of_listText hlist
    have hdangling : (lexText ['5', '-']).dangling = true := by decide
    rw [hlex] at hdangling
    cases hdangling
  refine ⟨hparse, hnot, fun h => hnot (h.accepts.mp ?_)⟩
  rw [hparse]

end AutotestClient.CpuSet
