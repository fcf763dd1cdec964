import AutotestClient.Model.Unixbench

/-! # The lines of a result block

What both versions read from a measured and an unmeasured line. -/

namespace AutotestClient.Unixbench

open Shared (digitValue? isDigitOf isSpace not_space_of_digit printInt words words_append_cons words_map
  words_of_forall words_of_separators)

variable {line suffix value : Text} {name : List Text}

/-! ## The two kinds -/

/-- A text of digits and points. -/
def isNumber (text : Text) : Bool := !text.isEmpty && text.all fun c => isDigitOf 10 c || c = '.'

/-- `<name words> <value> <unit> (<t> s, <k> samples)`. Version 4 prints `secs,`. -/
structure Measured (line : Text) (name : List Text) (value : Text) : Prop where
  number : isNumber value
  words : ∃ unit t s k, (s = "s,".toList ∨ s = "secs,".toList) ∧ words isSpace line =
    name ++ [value, unit, '(' :: t, s, k, "samples)".toList]

/-- `<name words> ... no measured results`. -/
inductive Unmeasured : Text → List Text → Prop where
  | intro {front tail : Text} (hfront : ∀ c ∈ front.getLast?, isSpace c)
      (htail : ∀ c ∈ tail, isSpace c) :
      Unmeasured (front ++ ("no measured results".toList ++ tail)) (words isSpace front)

def ResultLine (line : Text) : Prop :=
  (∃ name value, Measured line name value) ∨ ∃ name, Unmeasured line name

/-! ## Lower case -/

theorem not_space_of_lt {c : Char} (h : 32 < c.toNat) : isSpace c = false := by
  by_contra hspace
  simp only [isSpace, Bool.not_eq_false, Bool.or_eq_true, decide_eq_true_eq] at hspace
  rcases hspace with ((((rfl | rfl) | rfl) | rfl) | rfl) | rfl <;> revert h <;> decide

theorem toLower_eq_self {c : Char} (h : ¬(65 ≤ c.toNat ∧ c.toNat ≤ 90)) : c.toLower = c :=
  dif_neg h

theorem toNat_toLower {c : Char} (h : 65 ≤ c.toNat ∧ c.toNat ≤ 90) :
    c.toLower.toNat = c.toNat + 32 := by
  have hval : c.toLower.val = c.val + ('a'.val - 'A'.val) := congrArg Char.val (dif_pos h)
  have hnat : c.toLower.toNat = (c.val + ('a'.val - 'A'.val)).toNat := congrArg UInt32.toNat hval
  rw [hnat, UInt32.toNat_add]
  apply Nat.mod_eq_of_lt
  show c.toNat + 32 < 4294967296
  omega

theorem isSpace_toLower (c : Char) : isSpace c.toLower = isSpace c := by
  by_cases hc : 65 ≤ c.toNat ∧ c.toNat ≤ 90
  · have hlower : 32 < c.toLower.toNat := by
      rw [toNat_toLower hc]
      omega
    rw [not_space_of_lt hlower, not_space_of_lt (by omega)]
  · rw [toLower_eq_self hc]

theorem words_lower (line : Text) : words isSpace (lower line) = (words isSpace line).map lower := by
  rw [lower, words_map]
  simp only [isSpace_toLower]
  rfl

theorem toNat_le_of_digit {c : Char} (h : isDigitOf 10 c) : c.toNat ≤ 57 := by
  rw [isDigitOf, digitValue?] at h
  split_ifs at h with hdigit
  · exact hdigit.2
  · rw [Option.any_some, decide_eq_true_eq] at h
    omega
  · rw [Option.any_some, decide_eq_true_eq] at h
    omega
  · cases h

theorem lower_number (h : isNumber value) : lower value = value := by
  rw [isNumber, Bool.and_eq_true, List.all_eq_true] at h
  have hself : ∀ c ∈ value, c.toLower = c := by
    intro c hc
    have hchar := h.2 c hc
    rw [Bool.or_eq_true, decide_eq_true_eq] at hchar
    rcases hchar with hdigit | rfl
    · have hle := toNat_le_of_digit hdigit
      exact toLower_eq_self (by omega)
    · rfl
  exact (List.map_congr_left hself).trans (List.map_id' value)

/-! ## What is read -/

theorem entryOf_append (name : List Text) (value a b c d e : Text) :
    entryOf (name ++ [value, a, b, c, d, e]) = some (keyOf name, value) := by
  have hlength : (name ++ [value, a, b, c, d, e]).length = name.length + 6 := by simp
  rw [entryOf, hlength, if_neg (by omega), Nat.add_sub_cancel, List.take_left,
    List.getElem?_append_right le_rfl, Nat.sub_self]
  rfl

theorem lineEntry_of_measured (h : Measured line name value) (suffix : Text) :
    lineEntry suffix line = some (keyOf (name.map lower) ++ suffix, value) := by
  obtain ⟨unit, t, s, k, -, hwords⟩ := h.words
  rw [lineEntry, words_lower, hwords, List.map_append]
  simp only [List.map_cons, List.map_nil, entryOf_append, lower_number h.number, Option.map_some]

theorem isError_append (name : List Text) (a b c : Text) :
    Four.isError (name ++ [a, b, c]) =
      decide ([a, b, c] = ["no".toList, "measured".toList, "results".toList]) := by
  have hlength : (name ++ [a, b, c]).length = name.length + 3 := by simp
  rw [Four.isError, hlength, Nat.add_sub_cancel, List.drop_left]

theorem isError_of_measured (h : Measured line name value) :
    Four.isError (words isSpace line) = false := by
  obtain ⟨unit, t, s, k, -, hwords⟩ := h.words
  have hlast : (words isSpace line) = (name ++ [value, unit, '(' :: t]) ++ [s, k, "samples)".toList] := by
    rw [hwords]
    simp
  rw [hlast, isError_append, decide_eq_false_iff_not]
  intro heq
  have hsamples := (List.cons.inj (List.cons.inj (List.cons.inj heq).2).2).1
  revert hsamples
  decide

theorem words_of_unmeasured (h : Unmeasured line name) :
    words isSpace line = name ++ ["no".toList, "measured".toList, "results".toList] := by
  obtain ⟨hfront, htail⟩ := h
  rename_i front tail
  have hword {w : Text} (hne : w ≠ []) (hw : w.all (!isSpace ·) = true) : words isSpace w = [w] :=
    words_of_forall hne fun c hc => by simpa using List.all_eq_true.mp hw c hc
  have hresults : words isSpace ("results".toList ++ tail) = ["results".toList] := by
    cases tail with
    | nil => exact hword (by decide) (by decide)
    | cons c tail =>
        rw [List.forall_mem_cons] at htail
        rw [words_append_cons _ tail htail.1, words_of_separators htail.2, hword (by decide) (by decide)]
        rfl
  have hphrase : words isSpace ("no measured results".toList ++ tail) =
      ["no".toList, "measured".toList, "results".toList] := by
    have hsplit : "no measured results".toList ++ tail =
        "no".toList ++ ' ' :: ("measured".toList ++ ' ' :: ("results".toList ++ tail)) := rfl
    rw [hsplit, words_append_cons _ _ (by decide), words_append_cons _ _ (by decide), hresults,
      hword (by decide) (by decide), hword (by decide) (by decide)]
    rfl
  rcases List.eq_nil_or_concat front with rfl | ⟨u, c, rfl⟩
  · rw [List.nil_append, hphrase]
    rfl
  · have hc : isSpace c := hfront c (by simp)
    rw [List.concat_eq_append, List.append_assoc, List.singleton_append,
      words_append_cons u _ hc, hphrase, words_append_cons u [] hc]
    simp [words]

end AutotestClient.Unixbench
