import AutotestClient.Shared.Words
import Mathlib.Algebra.Order.Ring.Int
import Mathlib.Data.List.Basic
import Mathlib.Data.List.TakeWhile
import Mathlib.Order.Defs.LinearOrder

/-! # Integer numerals of C

The texts that `strtol` reads with base 0, as a grammar with unbounded values and as a
scanner, and the two shown to agree. -/

namespace AutotestClient.Shared

/-- `isspace` in the C locale. -/
def isSpace (c : Char) : Bool :=
  c = ' ' || c = '\t' || c = '\n' || c = '\x0b' || c = '\x0c' || c = '\r'

def digitValue? (c : Char) : Option ℕ :=
  if '0' ≤ c ∧ c ≤ '9' then some (c.toNat - '0'.toNat)
  else if 'a' ≤ c ∧ c ≤ 'f' then some (c.toNat - 'a'.toNat + 10)
  else if 'A' ≤ c ∧ c ≤ 'F' then some (c.toNat - 'A'.toNat + 10)
  else none

def isDigitOf (base : ℕ) (c : Char) : Bool := (digitValue? c).any (· < base)

def digitsValue (base : ℕ) (ds : List Char) : ℕ :=
  ds.foldl (fun n c => base * n + (digitValue? c).getD 0) 0

/-! ## The grammar -/

/-- Digits with the prefix that gives their base. -/
inductive Magnitude : List Char → ℕ → Prop where
  | decimal {c : Char} {ds : List Char} (hc : c ≠ '0') (h : ∀ d ∈ c :: ds, isDigitOf 10 d) :
      Magnitude (c :: ds) (digitsValue 10 (c :: ds))
  | octal {ds : List Char} (h : ∀ d ∈ ds, isDigitOf 8 d) :
      Magnitude ('0' :: ds) (digitsValue 8 ds)
  | hexadecimal {x : Char} {ds : List Char} (hx : x = 'x' ∨ x = 'X') (hne : ds ≠ [])
      (h : ∀ d ∈ ds, isDigitOf 16 d) : Magnitude ('0' :: x :: ds) (digitsValue 16 ds)

inductive SignedNumeral : List Char → ℤ → Prop where
  | plain {t : List Char} {m : ℕ} (h : Magnitude t m) : SignedNumeral t m
  | plus {t : List Char} {m : ℕ} (h : Magnitude t m) : SignedNumeral ('+' :: t) m
  | minus {t : List Char} {m : ℕ} (h : Magnitude t m) : SignedNumeral ('-' :: t) (-m)

/-- A numeral may have white space before it. -/
inductive Numeral : List Char → ℤ → Prop where
  | mk {blanks t : List Char} {v : ℤ} (hblanks : ∀ c ∈ blanks, isSpace c)
      (h : SignedNumeral t v) : Numeral (blanks ++ t) v

/-! ## The scanner -/

/-- The base, and the text from the first digit on. -/
def scanBase : List Char → ℕ × List Char
  | '0' :: x :: d :: s =>
      if (x = 'x' ∨ x = 'X') ∧ isDigitOf 16 d then (16, d :: s) else (8, '0' :: x :: d :: s)
  | '0' :: s => (8, '0' :: s)
  | s => (10, s)

def scanMagnitude (s : List Char) : Option (ℕ × List Char) :=
  let base := (scanBase s).1
  let ds := (scanBase s).2.takeWhile (isDigitOf base)
  if ds = [] then none
  else some (digitsValue base ds, (scanBase s).2.dropWhile (isDigitOf base))

def scanSigned : List Char → Option (ℤ × List Char)
  | '-' :: s => (scanMagnitude s).map fun r => (-r.1, r.2)
  | '+' :: s => (scanMagnitude s).map fun r => (r.1, r.2)
  | s => (scanMagnitude s).map fun r => (r.1, r.2)

/-- The value of the longest numeral at the front of a text, and the text after it. -/
def scanNumber (s : List Char) : Option (ℤ × List Char) := scanSigned (s.dropWhile isSpace)

/-- The limits of a 64-bit `long`. -/
def saturate (v : ℤ) : ℤ := max (-2 ^ 63) (min v (2 ^ 63 - 1))

/-- `strtol(s, &next, 0)`: the result and `next`. -/
def strtol (s : List Char) : ℤ × List Char :=
  match scanNumber s with
  | some (v, next) => (saturate v, next)
  | none => (0, s)

/-- What `%d` prints. -/
def printInt (v : ℤ) : List Char :=
  if v < 0 then '-' :: Nat.toDigits 10 v.natAbs else Nat.toDigits 10 v.natAbs

/-! ## Characters -/

theorem isDigitOf_mono {a b : ℕ} (hab : a ≤ b) {c : Char} (hc : isDigitOf a c) :
    isDigitOf b c := by
  cases hv : digitValue? c with
  | none => simp [isDigitOf, hv] at hc
  | some v =>
      simp only [isDigitOf, hv, Option.any_some, decide_eq_true_eq] at hc ⊢
      omega

theorem ne_of_digit {c d : Char} (hc : isDigitOf 10 c) (hd : isDigitOf 10 d = false) : c ≠ d := by
  rintro rfl
  rw [hc] at hd
  cases hd

theorem not_space_of_digit {c : Char} (hc : isDigitOf 10 c) : isSpace c = false := by
  have hne : ∀ d ∈ [' ', '\t', '\n', '\x0b', '\x0c', '\r'], c ≠ d := by
    intro d hd
    have hnone : [' ', '\t', '\n', '\x0b', '\x0c', '\r'].all (fun d => !isDigitOf 10 d) := by
      decide
    apply ne_of_digit hc
    simpa using List.all_eq_true.mp hnone d hd
  simpa [isSpace, and_assoc] using hne

/-- `rest` does not go on a numeral that ends before it. -/
def Stops (rest : List Char) : Prop :=
  ∀ c ∈ rest.head?, isDigitOf 16 c = false ∧ c ≠ 'x' ∧ c ≠ 'X'

theorem stops_nil : Stops [] := by simp [Stops]

theorem Stops.not_digit {rest : List Char} (h : Stops rest) {base : ℕ} (hbase : base ≤ 16) :
    ∀ c ∈ rest.head?, isDigitOf base c = false := by
  intro c hmem
  have hc := (h c hmem).1
  by_contra hd
  rw [Bool.not_eq_false] at hd
  rw [isDigitOf_mono hbase hd] at hc
  cases hc

theorem takeWhile_append_of_stops {base : ℕ} (hbase : base ≤ 16) {ds rest : List Char}
    (hds : ∀ d ∈ ds, isDigitOf base d) (hrest : Stops rest) :
    (ds ++ rest).takeWhile (isDigitOf base) = ds ∧
      (ds ++ rest).dropWhile (isDigitOf base) = rest :=
  takeWhile_append_of_head hds (hrest.not_digit hbase)

/-! ## Agreement -/

theorem scanBase_cases (s : List Char) :
    (∃ x d s', s = '0' :: x :: d :: s' ∧ (x = 'x' ∨ x = 'X') ∧ isDigitOf 16 d ∧
      scanBase s = (16, d :: s')) ∨
    (∃ s', s = '0' :: s' ∧ scanBase s = (8, s)) ∨
    ((∀ s', s ≠ '0' :: s') ∧ scanBase s = (10, s)) := by
  unfold scanBase
  split
  · rename_i x d s'
    split_ifs with h
    · exact .inl ⟨x, d, s', rfl, h.1, h.2, rfl⟩
    · exact .inr (.inl ⟨_, rfl, rfl⟩)
  · exact .inr (.inl ⟨_, rfl, rfl⟩)
  · rename_i hne
    exact .inr (.inr ⟨hne, rfl⟩)

theorem scanMagnitude_eq_some {base : ℕ} {s ds rest digits : List Char}
    (hbase : scanBase s = (base, digits)) (hne : ds ≠ [])
    (hds : digits.takeWhile (isDigitOf base) = ds)
    (hrest : digits.dropWhile (isDigitOf base) = rest) :
    scanMagnitude s = some (digitsValue base ds, rest) := by
  simp only [scanMagnitude, hbase, hds, hrest, if_neg hne]

/-- The scanner reads a numeral up to a text that does not go on with it. -/
theorem scanMagnitude_append {t rest : List Char} {m : ℕ} (h : Magnitude t m)
    (hrest : Stops rest) : scanMagnitude (t ++ rest) = some (m, rest) := by
  cases h with
  | @decimal c ds hc h =>
      have hbase : scanBase (c :: ds ++ rest) = (10, c :: ds ++ rest) := by
        rcases scanBase_cases (c :: ds ++ rest) with ⟨x, d, s', hs, -⟩ | ⟨s', hs, -⟩ | ⟨-, hb⟩
        · exact absurd (List.cons.inj hs).1 hc
        · exact absurd (List.cons.inj hs).1 hc
        · exact hb
      obtain ⟨htake, hdrop⟩ := takeWhile_append_of_stops (by decide) h hrest
      exact scanMagnitude_eq_some hbase (by simp) htake hdrop
  | @octal ds h =>
      have hbase : scanBase ('0' :: ds ++ rest) = (8, '0' :: ds ++ rest) := by
        rcases scanBase_cases ('0' :: ds ++ rest) with ⟨x, d, s', hs, hx, -⟩ | ⟨s', -, hb⟩ | ⟨hb, -⟩
        · -- The next character is an octal digit or stops the numeral.
          exfalso
          have hs : ds ++ rest = x :: d :: s' := (List.cons.inj hs).2
          cases ds with
          | nil =>
              have hx' := hrest x (by rw [show rest = x :: d :: s' from hs]; rfl)
              exact hx.elim hx'.2.1 hx'.2.2
          | cons d' ds =>
              have hd := h d' (by simp)
              rw [(List.cons.inj hs).1] at hd
              rcases hx with rfl | rfl <;> revert hd <;> decide
        · exact hb
        · exact absurd rfl (hb _)
      have hall : ∀ d ∈ '0' :: ds, isDigitOf 8 d := List.forall_mem_cons.mpr ⟨by decide, h⟩
      have hvalue : digitsValue 8 ('0' :: ds) = digitsValue 8 ds := rfl
      obtain ⟨htake, hdrop⟩ := takeWhile_append_of_stops (by decide) hall hrest
      rw [← hvalue]
      exact scanMagnitude_eq_some hbase (by simp) htake hdrop
  | @hexadecimal x ds hx hne h =>
      obtain ⟨d, ds, rfl⟩ := List.exists_cons_of_ne_nil hne
      have hbase : scanBase ('0' :: x :: d :: ds ++ rest) = (16, d :: ds ++ rest) := by
        have hd := h d List.mem_cons_self
        simp [scanBase, hx, hd]
      obtain ⟨htake, hdrop⟩ := takeWhile_append_of_stops le_rfl h hrest
      exact scanMagnitude_eq_some hbase hne htake hdrop

/-- What the scanner reads is a numeral. -/
theorem magnitude_of_scanMagnitude {s rest : List Char} {m : ℕ}
    (h : scanMagnitude s = some (m, rest)) : ∃ t, s = t ++ rest ∧ Magnitude t m := by
  simp only [scanMagnitude] at h
  split_ifs at h with hne
  obtain ⟨rfl, rfl⟩ := Prod.mk.inj (Option.some.inj h)
  have hdigits (base : ℕ) (digits : List Char) :
      ∀ d ∈ digits.takeWhile (isDigitOf base), isDigitOf base d :=
    fun d hd => List.mem_takeWhile_imp hd
  rcases scanBase_cases s with ⟨x, d, s', rfl, hx, hd, hb⟩ | ⟨s', rfl, hb⟩ | ⟨hzero, hb⟩
  all_goals rw [hb] at hne ⊢
  · refine ⟨'0' :: x :: (d :: s').takeWhile (isDigitOf 16), ?_, ?_⟩
    · rw [List.cons_append, List.cons_append, List.takeWhile_append_dropWhile]
    · exact .hexadecimal hx hne (hdigits 16 _)
  · have h0 : isDigitOf 8 '0' := by decide
    refine ⟨'0' :: s'.takeWhile (isDigitOf 8), ?_, ?_⟩
    · simp [h0, List.takeWhile_append_dropWhile]
    · simp only [List.takeWhile_cons, h0, if_true]
      exact .octal (hdigits 8 _)
  · refine ⟨s.takeWhile (isDigitOf 10), List.takeWhile_append_dropWhile.symm, ?_⟩
    cases s with
    | nil => exact absurd rfl hne
    | cons c s =>
        have hc : c ≠ '0' := by
          rintro rfl
          exact hzero s rfl
        have hd : isDigitOf 10 c := by
          by_contra hd
          exact hne (by simp [hd])
        have hall := hdigits 10 (c :: s)
        simp only [List.takeWhile_cons, hd, if_true] at hall ⊢
        exact .decimal hc hall

theorem Magnitude.head {t : List Char} {m : ℕ} (h : Magnitude t m) :
    ∃ c t', t = c :: t' ∧ isDigitOf 10 c := by
  cases h with
  | decimal hc h => exact ⟨_, _, rfl, h _ List.mem_cons_self⟩
  | octal h => exact ⟨_, _, rfl, by decide⟩
  | hexadecimal hx hne h => exact ⟨_, _, rfl, by decide⟩

theorem scanSigned_append {t rest : List Char} {v : ℤ} (h : SignedNumeral t v)
    (hrest : Stops rest) : scanSigned (t ++ rest) = some (v, rest) := by
  cases h with
  | @plain t m h =>
      obtain ⟨c, t', rfl, hc⟩ := h.head
      have hminus : c ≠ '-' := ne_of_digit hc (by decide)
      have hplus : c ≠ '+' := ne_of_digit hc (by decide)
      have hmag := scanMagnitude_append h hrest
      rw [List.cons_append] at hmag ⊢
      rw [scanSigned, hmag]
      · rfl
      · rintro s ⟨⟩
        exact hminus rfl
      · rintro s ⟨⟩
        exact hplus rfl
  | plus h => simp [scanSigned, scanMagnitude_append h hrest]
  | minus h => simp [scanSigned, scanMagnitude_append h hrest]

theorem signedNumeral_of_scanSigned {s rest : List Char} {v : ℤ}
    (h : scanSigned s = some (v, rest)) : ∃ t, s = t ++ rest ∧ SignedNumeral t v := by
  unfold scanSigned at h
  split at h
  all_goals
    obtain ⟨⟨m, r⟩, hmag, hv⟩ := Option.map_eq_some_iff.mp h
    obtain ⟨rfl, rfl⟩ := Prod.mk.inj hv
    obtain ⟨t, rfl, ht⟩ := magnitude_of_scanMagnitude hmag
  · exact ⟨'-' :: t, rfl, .minus ht⟩
  · exact ⟨'+' :: t, rfl, .plus ht⟩
  · exact ⟨t, rfl, .plain ht⟩

theorem SignedNumeral.head {t : List Char} {v : ℤ} (h : SignedNumeral t v) :
    ∃ c t', t = c :: t' ∧ isSpace c = false := by
  cases h with
  | plain h =>
      obtain ⟨c, t', rfl, hc⟩ := h.head
      exact ⟨c, t', rfl, not_space_of_digit hc⟩
  | plus h => exact ⟨_, _, rfl, rfl⟩
  | minus h => exact ⟨_, _, rfl, rfl⟩

theorem scanNumber_append {t rest : List Char} {v : ℤ} (h : Numeral t v) (hrest : Stops rest) :
    scanNumber (t ++ rest) = some (v, rest) := by
  obtain ⟨hblanks, h⟩ := h
  obtain ⟨c, t', rfl, hc⟩ := h.head
  rw [scanNumber, List.append_assoc, List.dropWhile_append_of_pos hblanks, List.cons_append,
    List.dropWhile_cons, if_neg (by simp [hc])]
  exact scanSigned_append h hrest

theorem numeral_of_scanNumber {s rest : List Char} {v : ℤ}
    (h : scanNumber s = some (v, rest)) : ∃ t, s = t ++ rest ∧ Numeral t v := by
  obtain ⟨t, hs, ht⟩ := signedNumeral_of_scanSigned h
  refine ⟨s.takeWhile isSpace ++ t, ?_, .mk (fun c hc => List.mem_takeWhile_imp hc) ht⟩
  rw [List.append_assoc, ← hs, List.takeWhile_append_dropWhile]

theorem Numeral.ne_nil {t : List Char} {v : ℤ} (h : Numeral t v) : t ≠ [] := by
  obtain ⟨hblanks, h⟩ := h
  obtain ⟨c, t', rfl, -⟩ := h.head
  simp

/-- A successful scan makes the text shorter. -/
theorem length_of_scanNumber {s rest : List Char} {v : ℤ} (h : scanNumber s = some (v, rest)) :
    rest.length < s.length := by
  obtain ⟨t, rfl, ht⟩ := numeral_of_scanNumber h
  have := List.length_pos_iff.mpr ht.ne_nil
  simp only [List.length_append]
  omega

/-- `next == s` is the test for "no number there". -/
theorem strtol_next_eq_iff (s : List Char) : (strtol s).2 = s ↔ scanNumber s = none := by
  cases h : scanNumber s with
  | none => simp [strtol, h]
  | some r =>
      obtain ⟨v, rest⟩ := r
      have hlt := length_of_scanNumber h
      simp only [strtol, h, reduceCtorEq, iff_false]
      rintro rfl
      exact lt_irrefl _ hlt

/-! ## The longest numeral -/

/-- No longer part of the text is a numeral. -/
def Longest (t rest : List Char) : Prop :=
  ∀ u, u ≠ [] → u <+: rest → ¬∃ w, Numeral (t ++ u) w

theorem length_dropWhile_append {p : Char → Bool} {ds : List Char} (hds : ∀ d ∈ ds, p d)
    (rest : List Char) : ((ds ++ rest).dropWhile p).length ≤ rest.length := by
  rw [List.dropWhile_append_of_pos hds]
  exact (List.dropWhile_sublist p).length_le

theorem takeWhile_append_ne_nil {p : Char → Bool} {d : Char} (hd : p d) (ds rest : List Char) :
    (d :: ds ++ rest).takeWhile p ≠ [] := by
  rw [List.cons_append, List.takeWhile_cons_of_pos hd]
  exact List.cons_ne_nil _ _

/-- The scanner reads at least the digits in front. -/
theorem exists_scanMagnitude {t : List Char} {m : ℕ} (h : Magnitude t m) (rest : List Char) :
    ∃ m' next, scanMagnitude (t ++ rest) = some (m', next) ∧ next.length ≤ rest.length := by
  cases h with
  | @decimal c ds hc h =>
      have hbase : scanBase (c :: ds ++ rest) = (10, c :: ds ++ rest) := by
        rcases scanBase_cases (c :: ds ++ rest) with ⟨x, d, s', hs, -⟩ | ⟨s', hs, -⟩ | ⟨-, hb⟩
        · exact absurd (List.cons.inj hs).1 hc
        · exact absurd (List.cons.inj hs).1 hc
        · exact hb
      have hne := takeWhile_append_ne_nil (h c List.mem_cons_self) ds rest
      exact ⟨_, _, scanMagnitude_eq_some hbase hne rfl rfl, length_dropWhile_append h rest⟩
  | @octal ds h =>
      have hall : ∀ d ∈ '0' :: ds, isDigitOf 8 d := List.forall_mem_cons.mpr ⟨by decide, h⟩
      rcases scanBase_cases ('0' :: ds ++ rest) with
        ⟨x, d, s', hs, hx, hd, hb⟩ | ⟨s', -, hb⟩ | ⟨hb, -⟩
      · -- the digits are those of a hexadecimal numeral
        have hs : ds ++ rest = x :: d :: s' := (List.cons.inj hs).2
        obtain rfl : ds = [] := by
          by_contra hne
          obtain ⟨d', ds, rfl⟩ := List.exists_cons_of_ne_nil hne
          have hd' := h d' List.mem_cons_self
          rw [(List.cons.inj hs).1] at hd'
          rcases hx with rfl | rfl <;> revert hd' <;> decide
        obtain rfl : rest = x :: d :: s' := hs
        have hne := takeWhile_append_ne_nil hd s' []
        rw [List.append_nil] at hne
        refine ⟨_, _, scanMagnitude_eq_some hb hne rfl rfl, ?_⟩
        exact ((List.dropWhile_sublist _).trans (List.sublist_cons_self x (d :: s'))).length_le
      · have hne := takeWhile_append_ne_nil (hall '0' List.mem_cons_self) ds rest
        exact ⟨_, _, scanMagnitude_eq_some hb hne rfl rfl, length_dropWhile_append hall rest⟩
      · exact absurd rfl (hb _)
  | @hexadecimal x ds hx hne h =>
      obtain ⟨d, ds, rfl⟩ := List.exists_cons_of_ne_nil hne
      have hd := h d List.mem_cons_self
      have hbase : scanBase ('0' :: x :: d :: ds ++ rest) = (16, d :: ds ++ rest) := by
        simp [scanBase, hx, hd]
      have hne := takeWhile_append_ne_nil hd ds rest
      exact ⟨_, _, scanMagnitude_eq_some hbase hne rfl rfl, length_dropWhile_append h rest⟩

theorem scanSigned_of_plain {t : List Char} {m : ℕ} (h : Magnitude t m) (rest : List Char) :
    scanSigned (t ++ rest) = (scanMagnitude (t ++ rest)).map fun r => ((r.1 : ℤ), r.2) := by
  obtain ⟨c, t', rfl, hc⟩ := h.head
  have hminus : c ≠ '-' := ne_of_digit hc (by decide)
  have hplus : c ≠ '+' := ne_of_digit hc (by decide)
  rw [List.cons_append, scanSigned]
  · rintro s ⟨⟩
    exact hminus rfl
  · rintro s ⟨⟩
    exact hplus rfl

theorem exists_scanNumber {t : List Char} {w : ℤ} (h : Numeral t w) (rest : List Char) :
    ∃ v next, scanNumber (t ++ rest) = some (v, next) ∧ next.length ≤ rest.length := by
  obtain ⟨hblanks, h⟩ := h
  obtain ⟨c, t', ht, hc⟩ := h.head
  rw [scanNumber, List.append_assoc, List.dropWhile_append_of_pos hblanks, ht, List.cons_append,
    List.dropWhile_cons, if_neg (by simp [hc]), ← List.cons_append, ← ht]
  cases h with
  | plain h =>
      obtain ⟨m', next, hscan, hle⟩ := exists_scanMagnitude h rest
      exact ⟨m', next, by rw [scanSigned_of_plain h, hscan]; rfl, hle⟩
  | plus h =>
      obtain ⟨m', next, hscan, hle⟩ := exists_scanMagnitude h rest
      exact ⟨m', next, by rw [List.cons_append, scanSigned, hscan]; rfl, hle⟩
  | minus h =>
      obtain ⟨m', next, hscan, hle⟩ := exists_scanMagnitude h rest
      exact ⟨-m', next, by rw [List.cons_append, scanSigned, hscan]; rfl, hle⟩

/-- A numeral has one value. -/
theorem Numeral.eq {t : List Char} {v w : ℤ} (hv : Numeral t v) (hw : Numeral t w) : v = w := by
  have hscan := scanNumber_append hv stops_nil
  rw [scanNumber_append hw stops_nil] at hscan
  exact (Prod.mk.inj (Option.some.inj hscan)).1.symm

/-- The scanner reads the longest numeral in front of a text. -/
theorem scanNumber_eq_some_iff {s next : List Char} {v : ℤ} :
    scanNumber s = some (v, next) ↔ ∃ t, s = t ++ next ∧ Numeral t v ∧ Longest t next := by
  constructor
  · intro h
    obtain ⟨t, rfl, ht⟩ := numeral_of_scanNumber h
    refine ⟨t, rfl, ht, ?_⟩
    rintro u hne ⟨rest, rfl⟩ ⟨w, hw⟩
    obtain ⟨v', next', hscan, hle⟩ := exists_scanNumber hw rest
    rw [List.append_assoc, h] at hscan
    obtain ⟨-, rfl⟩ := Prod.mk.inj (Option.some.inj hscan)
    have hpos := List.length_pos_iff.mpr hne
    rw [List.length_append] at hle
    omega
  · rintro ⟨t, rfl, ht, hlongest⟩
    obtain ⟨v', next', hscan, hle⟩ := exists_scanNumber ht next
    obtain ⟨t', hsplit, ht'⟩ := numeral_of_scanNumber hscan
    rcases List.append_eq_append_iff.mp hsplit with ⟨u, rfl, rfl⟩ | ⟨u, rfl, rfl⟩
    · by_cases hu : u = []
      · subst hu
        rw [List.append_nil] at ht'
        rw [hscan, ht.eq ht']
        rfl
      · exact absurd ⟨v', ht'⟩ (hlongest u hu (List.prefix_append u next'))
    · have hnil : u = [] := by
        rw [List.length_append] at hle
        exact List.length_eq_zero_iff.mp (by omega)
      subst hnil
      rw [List.append_nil] at ht
      rw [hscan, ht.eq ht']
      rfl

/-! ## Decimal output -/

theorem digitValue?_digitChar {d : ℕ} (hd : d < 16) : digitValue? (Nat.digitChar d) = some d := by
  revert d
  decide

theorem isDigitOf_digitChar {base d : ℕ} (hbase : base ≤ 16) (hd : d < base) :
    isDigitOf base (Nat.digitChar d) := by
  simpa [isDigitOf, digitValue?_digitChar (hd.trans_le hbase)] using hd

theorem digitsValue_append_digit (base : ℕ) (ds : List Char) (c : Char) :
    digitsValue base (ds ++ [c]) = base * digitsValue base ds + (digitValue? c).getD 0 := by
  simp [digitsValue]

theorem isDigitOf_toDigits {base n : ℕ} (hbase : 1 < base) (hle : base ≤ 16) :
    ∀ d ∈ Nat.toDigits base n, isDigitOf base d := by
  induction n using Nat.strong_induction_on with
  | _ n ih =>
      rw [Nat.toDigits_eq_if hbase]
      split_ifs with hn
      · simpa using isDigitOf_digitChar hle hn
      · intro d hd
        rcases List.mem_append.mp hd with hd | hd
        · exact ih (n / base) (Nat.div_lt_self (by omega) hbase) d hd
        · rw [List.mem_singleton.mp hd]
          exact isDigitOf_digitChar hle (Nat.mod_lt n (by omega))

theorem mem_toDigits {n : ℕ} : ∀ d ∈ Nat.toDigits 10 n, isDigitOf 10 d :=
  isDigitOf_toDigits (by decide) (by decide)

/-- A number is the value of its digits. -/
theorem digitsValue_toDigits {base : ℕ} (hbase : 1 < base) (hle : base ≤ 16) (n : ℕ) :
    digitsValue base (Nat.toDigits base n) = n := by
  induction n using Nat.strong_induction_on with
  | _ n ih =>
      have hmod : n % base < 16 := (Nat.mod_lt n (by omega)).trans_le hle
      rw [Nat.toDigits_eq_if hbase]
      split_ifs with hn
      · simp [digitsValue, digitValue?_digitChar (hn.trans_le hle)]
      · rw [digitsValue_append_digit, ih (n / base) (Nat.div_lt_self (by omega) hbase),
          digitValue?_digitChar hmod]
        exact Nat.div_add_mod n base

theorem head_toDigits {n : ℕ} (hn : 0 < n) :
    ∃ c ds, Nat.toDigits 10 n = c :: ds ∧ c ≠ '0' := by
  induction n using Nat.strong_induction_on with
  | _ n ih =>
      rw [Nat.toDigits_eq_if (by decide)]
      split_ifs with hlt
      · exact ⟨_, _, rfl, by simp; omega⟩
      · obtain ⟨c, ds, hcs, hc⟩ := ih (n / 10) (by omega) (by omega)
        exact ⟨c, ds ++ [Nat.digitChar (n % 10)], by rw [hcs]; rfl, hc⟩

@[simp] theorem printInt_natCast (n : ℕ) : printInt n = Nat.toDigits 10 n := by
  simp [printInt]

theorem magnitude_toDigits (n : ℕ) : Magnitude (Nat.toDigits 10 n) n := by
  rcases Nat.eq_zero_or_pos n with rfl | hn
  · exact @Magnitude.octal [] (by simp)
  · obtain ⟨c, ds, hcs, hc⟩ := head_toDigits hn
    have hvalue := digitsValue_toDigits (by decide : 1 < 10) (by decide) n
    have hdigits := mem_toDigits (n := n)
    rw [hcs] at hvalue hdigits ⊢
    have hmag := Magnitude.decimal hc hdigits
    rwa [hvalue] at hmag

/-- The decimal digits of a number are a numeral of it. -/
theorem numeral_toDigits (n : ℕ) : Numeral (Nat.toDigits 10 n) n :=
  @Numeral.mk [] _ _ (by simp) (.plain (magnitude_toDigits n))

theorem signedNumeral_printInt (v : ℤ) : SignedNumeral (printInt v) v := by
  have hmag := magnitude_toDigits v.natAbs
  rw [printInt]
  split_ifs with hneg
  · have hminus := SignedNumeral.minus hmag
    rwa [show -(v.natAbs : ℤ) = v by omega] at hminus
  · have hplain := SignedNumeral.plain hmag
    rwa [show (v.natAbs : ℤ) = v by omega] at hplain

/-- A number before a text that does not go on it can be read off. -/
theorem printInt_append_inj {v v' : ℤ} {rest rest' : List Char} (hrest : Stops rest)
    (hrest' : Stops rest') (h : printInt v ++ rest = printInt v' ++ rest') :
    v = v' ∧ rest = rest' := by
  have hscan := scanSigned_append (signedNumeral_printInt v) hrest
  rw [h, scanSigned_append (signedNumeral_printInt v') hrest'] at hscan
  obtain ⟨rfl, rfl⟩ := Prod.mk.inj (Option.some.inj hscan)
  exact ⟨rfl, rfl⟩

/-- A number with its sign is digits after at most one `-`. -/
theorem printInt_eq (v : ℤ) :
    printInt v = (if v < 0 then ['-'] else []) ++ Nat.toDigits 10 v.natAbs := by
  rw [printInt]
  split_ifs
  · rfl
  · rfl

theorem mem_printInt {v : ℤ} {c : Char} (hc : c ∈ printInt v) : c = '-' ∨ isDigitOf 10 c := by
  rw [printInt_eq, List.mem_append] at hc
  cases hc with
  | inl hsign =>
      split_ifs at hsign
      · exact Or.inl (List.mem_singleton.mp hsign)
      · exact absurd hsign List.not_mem_nil
  | inr hdigit => exact Or.inr (mem_toDigits c hdigit)

theorem not_mem_printInt {c : Char} (hc : c ≠ '-') (hdigit : isDigitOf 10 c = false) (v : ℤ) :
    c ∉ printInt v := by
  intro hmem
  cases mem_printInt hmem with
  | inl h => exact hc h
  | inr h => simp [hdigit] at h

theorem printInt_ne_nil (v : ℤ) : printInt v ≠ [] := by
  rw [printInt_eq]
  exact List.append_ne_nil_of_right_ne_nil _ Nat.toDigits_ne_nil

/-- A number does not begin with a blank. -/
theorem not_space_printInt (v : ℤ) (rest : List Char) :
    ∀ c ∈ (printInt v ++ rest).head?, isSpace c = false := by
  intro c hc
  rw [List.head?_append_of_ne_nil _ (printInt_ne_nil v)] at hc
  cases mem_printInt (List.mem_of_mem_head? hc) with
  | inl h => rw [h]; decide
  | inr h => exact not_space_of_digit h

theorem dropWhile_sign (v : ℤ) (rest : List Char) :
    (printInt v ++ rest).dropWhile (· = '-') = Nat.toDigits 10 v.natAbs ++ rest := by
  have hhead : ∀ c ∈ (Nat.toDigits 10 v.natAbs ++ rest).head?, decide (c = '-') = false := by
    intro c hc
    rw [List.head?_append_of_ne_nil _ Nat.toDigits_ne_nil] at hc
    have hdigit := mem_toDigits c (List.mem_of_mem_head? hc)
    exact decide_eq_false (ne_of_digit hdigit (by decide))
  have hdigits : (Nat.toDigits 10 v.natAbs ++ rest).dropWhile (· = '-') =
      Nat.toDigits 10 v.natAbs ++ rest :=
    (takeWhile_append_of_head (u := []) (by simp) hhead).2
  rw [printInt_eq]
  split_ifs
  · rw [List.append_assoc, List.dropWhile_append_of_pos (by simp), hdigits]
  · exact hdigits

end AutotestClient.Shared
