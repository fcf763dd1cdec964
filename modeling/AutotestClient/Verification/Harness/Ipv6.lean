import AutotestClient.Model.Harness.Ipv6
import Mathlib.Data.List.Forall2
import Mathlib.Data.Nat.Find
import Mathlib.Logic.Function.Iterate

/-! # Which addresses `tc_ipv6_normalize` preserves

Part 1 turns every zero group into an empty one. Part 2 shortens one run of colons, so the
text it leaves is a valid form exactly if there was one run of zero groups at most, and
that run leaves two colons. -/

namespace AutotestClient.Harness

open Shared

/-! ### Dropping leading zeros -/

theorem colonJoin_cons (g : List Char) (gs : List (List Char)) :
    colonJoin (g :: gs) = g ++ gs.flatMap (':' :: ·) := by
  induction gs generalizing g with
  | nil => simp [colonJoin]
  | cons g' gs ih =>
      rw [colonJoin, List.intercalate_cons_cons, ← colonJoin, ih]
      simp

/-- One leading zero of a group less. -/
def dropZero (g : List Char) : List Char := if g.take 1 = ['0'] then g.drop 1 else g

@[simp] theorem dropZero_nil : dropZero [] = [] := rfl

@[simp] theorem dropZero_zero_cons (g : List Char) : dropZero ('0' :: g) = g := rfl

theorem dropZero_cons_of_ne {c : Char} (hc : c ≠ '0') (g : List Char) :
    dropZero (c :: g) = c :: g := by
  simp [dropZero, hc]

theorem notMem_dropZero {c : Char} {g : List Char} (hg : c ∉ g) : c ∉ dropZero g := by
  unfold dropZero
  split
  · exact fun hc => hg (List.mem_of_mem_drop hc)
  · exact hg

theorem replaceAll_flatMap_colon {gs : List (List Char)} (hgs : ∀ g ∈ gs, ':' ∉ g) :
    replaceAll [':', '0'] [':'] (gs.flatMap (':' :: ·)) =
      (gs.map dropZero).flatMap (':' :: ·) := by
  induction gs with
  | nil => rfl
  | cons g gs ih =>
      obtain ⟨hg, hgs⟩ := List.forall_mem_cons.mp hgs
      have hcopy := fun (u : List Char) (hu : ':' ∉ u) =>
        replaceAll_append_of_notMem (p := ['0']) (r := [':']) hu (gs.flatMap (':' :: ·))
      rw [List.flatMap_cons, List.map_cons, List.flatMap_cons, ← ih hgs, List.cons_append]
      by_cases hzero : ∃ g', g = '0' :: g'
      · obtain ⟨g', rfl⟩ := hzero
        rw [dropZero_zero_cons, List.cons_append, List.cons_append,
          ← hcopy g' (List.not_mem_of_not_mem_cons hg)]
        exact replaceAll_match _
      · -- The colon is followed by another digit, by the next colon, or by nothing.
        have hnot : ¬[':', '0'] <+: ':' :: (g ++ gs.flatMap (':' :: ·)) := by
          rw [List.cons_prefix_cons]
          rintro ⟨-, hpre⟩
          cases g with
          | nil => cases gs <;> simp [List.cons_prefix_cons] at hpre
          | cons c g =>
              rw [List.cons_append, List.cons_prefix_cons] at hpre
              exact hzero ⟨g, hpre.1 ▸ rfl⟩
        have hkeep : dropZero g = g := by
          cases g with
          | nil => rfl
          | cons c g =>
              apply dropZero_cons_of_ne
              rintro rfl
              exact hzero ⟨g, rfl⟩
        rw [replaceAll_cons_of_mismatch hnot, hcopy g hg, hkeep, List.cons_append]

/-- A round of part 1 drops one leading zero of every group. -/
theorem dropZerosOnce_colonJoin {gs : List (List Char)} (hgs : ∀ g ∈ gs, ':' ∉ g) :
    dropZerosOnce (colonJoin gs) = colonJoin (gs.map dropZero) := by
  cases gs with
  | nil => rfl
  | cons g gs =>
      obtain ⟨hg, hgs⟩ := List.forall_mem_cons.mp hgs
      have hrest : replaceAll [':', '0'] [':'] (colonJoin (g :: gs)) =
          g ++ (gs.map dropZero).flatMap (':' :: ·) := by
        rw [colonJoin_cons, replaceAll_append_of_notMem hg, replaceAll_flatMap_colon hgs]
      rw [dropZerosOnce, hrest, List.map_cons, colonJoin_cons]
      cases g with
      | nil => cases gs <;> rfl
      | cons c g =>
          by_cases hc : c = '0'
          · subst hc
            simp
          · simp [hc, dropZero_cons_of_ne hc]

theorem iterate_dropZerosOnce {gs : List (List Char)} (hgs : ∀ g ∈ gs, ':' ∉ g) (n : ℕ) :
    dropZerosOnce^[n] (colonJoin gs) = colonJoin (gs.map dropZero^[n]) := by
  induction n generalizing gs with
  | zero => simp
  | succ n ih =>
      have hnext : ∀ g ∈ gs.map dropZero, ':' ∉ g := by
        intro g hg
        obtain ⟨g', hg', rfl⟩ := List.mem_map.mp hg
        exact notMem_dropZero (hgs g' hg')
      rw [Function.iterate_succ_apply, dropZerosOnce_colonJoin hgs, ih hnext, List.map_map,
        ← Function.iterate_succ]

/-- After as many rounds as a group has digits, all its leading zeros are gone. -/
theorem iterate_dropZero {n : ℕ} {g : List Char} (hn : g.length ≤ n) :
    dropZero^[n] g = g.dropWhile (· = '0') := by
  induction g generalizing n with
  | nil => exact Function.iterate_fixed dropZero_nil n
  | cons c g ih =>
      obtain ⟨n, rfl⟩ : ∃ m, n = m + 1 := Nat.exists_eq_succ_of_ne_zero (by simp at hn; omega)
      by_cases hc : c = '0'
      · subst hc
        rw [Function.iterate_succ_apply, dropZero_zero_cons, ih (by simpa using hn)]
        simp
      · rw [Function.iterate_fixed (dropZero_cons_of_ne hc g)]
        simp [hc]

/-- The loop ends with the first text that a round leaves alone. -/
theorem dropZeros_of_fixed {n : ℕ} {temp normal : List Char}
    (hfix : dropZerosOnce (dropZerosOnce^[n] normal) = dropZerosOnce^[n] normal)
    (htemp : temp = normal → dropZerosOnce normal = normal) {fuel : ℕ} (hfuel : n < fuel) :
    dropZeros fuel temp normal = some (dropZerosOnce^[n] normal) := by
  induction n generalizing temp normal fuel with
  | zero =>
      obtain ⟨fuel, rfl⟩ : ∃ m, fuel = m + 1 := Nat.exists_eq_succ_of_ne_zero (by omega)
      have hfix : dropZerosOnce normal = normal := hfix
      unfold dropZeros
      split
      · rfl
      · dsimp only
        unfold dropZeros
        rw [hfix, if_pos rfl]
        rfl
  | succ n ih =>
      obtain ⟨fuel, rfl⟩ : ∃ m, fuel = m + 1 := Nat.exists_eq_succ_of_ne_zero (by omega)
      rw [Function.iterate_succ_apply] at hfix ⊢
      unfold dropZeros
      split
      · rename_i heq
        rw [htemp heq, Function.iterate_fixed (htemp heq)]
      · refine ih hfix ?_ (by omega)
        intro heq
        rw [← heq, ← heq]

/-! ### Compressing colons -/

/-- Groups that part 1 leaves digits of. -/
def Solid (gs : List (List Char)) : Prop := ∀ g ∈ gs, g ≠ [] ∧ ':' ∉ g

/-- Solid groups have no two colons in a row, so a longer run is only found after them. -/
theorem replaceFirst_colonJoin_append {gs : List (List Char)} (hgs : Solid gs) (k : ℕ)
    (r w : List Char) :
    replaceFirst (List.replicate (k + 2) ':') r (colonJoin gs ++ w) =
      colonJoin gs ++ replaceFirst (List.replicate (k + 2) ':') r w := by
  cases gs with
  | nil => rfl
  | cons g gs =>
      induction gs generalizing g with
      | nil =>
          simp only [colonJoin_cons, List.flatMap_nil, List.append_nil]
          exact replaceFirst_append_of_notMem (hgs g (by simp)).2 w
      | cons g' gs ih =>
          have hgs' : Solid (g' :: gs) := fun x hx => hgs x (List.mem_cons_of_mem g hx)
          have hstep : colonJoin (g :: g' :: gs) = g ++ ':' :: colonJoin (g' :: gs) := by
            rw [colonJoin_cons, colonJoin_cons]
            rfl
          have hnot : ¬List.replicate (k + 2) ':' <+: ':' :: (colonJoin (g' :: gs) ++ w) := by
            obtain ⟨c, cs, hc⟩ := List.exists_cons_of_ne_nil (hgs' g' (by simp)).1
            have hne : ':' ∉ g' := (hgs' g' (by simp)).2
            rw [colonJoin_cons, hc, List.replicate_succ, List.replicate_succ]
            simp only [List.cons_append, List.cons_prefix_cons, true_and, not_and]
            rintro rfl
            exact absurd (hc ▸ List.mem_cons_self) hne
          rw [hstep, List.append_assoc, List.cons_append, List.append_assoc, List.cons_append,
            ← ih g' hgs', ← replaceFirst_cons_of_mismatch hnot]
          exact replaceFirst_append_of_notMem (hgs g (by simp)).2 _

theorem shortenColons_colonJoin {gs : List (List Char)} (hgs : Solid gs) (k : ℕ) :
    shortenColons (k + 2) (colonJoin gs) = colonJoin gs := by
  simpa [shortenColons] using replaceFirst_colonJoin_append hgs k [':', ':'] []

theorem head?_colonJoin_ne {gs : List (List Char)} (hgs : Solid gs) :
    (colonJoin gs).head? ≠ some ':' := by
  cases gs with
  | nil => simp [colonJoin]
  | cons g gs =>
      obtain ⟨hne, hcolon⟩ := hgs g List.mem_cons_self
      obtain ⟨c, cs, rfl⟩ := List.exists_cons_of_ne_nil hne
      rw [colonJoin_cons]
      simp only [List.cons_append, List.head?_cons, ne_eq, Option.some.injEq]
      rintro rfl
      exact hcolon List.mem_cons_self

/-- A run of colons that is too short is left alone. -/
theorem replaceFirst_short_run {gs : List (List Char)} (hgs : Solid gs) {c k : ℕ}
    (hck : c < k + 2) (r : List Char) :
    replaceFirst (List.replicate (k + 2) ':') r (List.replicate c ':' ++ colonJoin gs) =
      List.replicate c ':' ++ colonJoin gs := by
  induction c with
  | zero => simpa using replaceFirst_colonJoin_append hgs k r []
  | succ c ih =>
      have hnot := not_replicate_prefix_of_lt (head?_colonJoin_ne hgs) hck
      simp only [List.replicate_succ (n := c), List.cons_append] at hnot ⊢
      rw [replaceFirst_cons_of_mismatch hnot, ih (by omega)]

section Runs

variable {front back : List (List Char)} (hfront : Solid front) (hback : Solid back)
include hfront hback

theorem shortenColons_of_lt {c k : ℕ} (hck : c < k + 2) :
    shortenColons (k + 2) (colonJoin front ++ (List.replicate c ':' ++ colonJoin back)) =
      colonJoin front ++ (List.replicate c ':' ++ colonJoin back) := by
  rw [shortenColons, replaceFirst_colonJoin_append hfront, replaceFirst_short_run hback hck]

omit hback in
theorem shortenColons_self (k : ℕ) :
    shortenColons (k + 2) (colonJoin front ++ (List.replicate (k + 2) ':' ++ colonJoin back)) =
      colonJoin front ++ ([':', ':'] ++ colonJoin back) := by
  rw [shortenColons, replaceFirst_colonJoin_append hfront, List.replicate_succ,
    replaceFirst_match]

/-- Trying runs of `n + 2` colons down to three cuts the only run down to two. -/
theorem firstChange_run {c : ℕ} (hc : 2 ≤ c) (n : ℕ) (hcn : c ≤ n + 2) :
    firstChange ((List.range' 3 n).reverse.map shortenColons)
        (colonJoin front ++ (List.replicate c ':' ++ colonJoin back)) =
      colonJoin front ++ ([':', ':'] ++ colonJoin back) := by
  induction n with
  | zero =>
      obtain rfl : c = 2 := by omega
      rfl
  | succ n ih =>
      rw [List.range'_concat, List.reverse_append, List.map_append, Nat.one_mul,
        Nat.add_comm 3 n]
      simp only [List.reverse_singleton, List.map_singleton, List.singleton_append, firstChange]
      by_cases hlast : c = n + 3
      · subst hlast
        rw [shortenColons_self hfront, if_pos]
        intro heq
        have hlen := congrArg List.length heq
        simp only [List.length_append, List.length_cons, List.length_nil,
          List.length_replicate] at hlen
        omega
      · rw [shortenColons_of_lt hfront hback (by omega), if_neg (by simp)]
        exact ih (by omega)

theorem compressColons_run {c : ℕ} (hc : 2 ≤ c) (hc' : c ≤ 7) :
    compressColons (colonJoin front ++ (List.replicate c ':' ++ colonJoin back)) =
      colonJoin front ++ ([':', ':'] ++ colonJoin back) :=
  firstChange_run hfront hback hc 5 hc'

end Runs

theorem firstChange_of_fixed {α : Type*} [DecidableEq α] {fs : List (α → α)} {a : α}
    (h : ∀ f ∈ fs, f a = a) : firstChange fs a = a := by
  induction fs with
  | nil => rfl
  | cons f fs ih =>
      obtain ⟨hf, hfs⟩ := List.forall_mem_cons.mp h
      rw [firstChange, hf, if_neg (by simp), ih hfs]

theorem compressColons_colonJoin {gs : List (List Char)} (hgs : Solid gs) :
    compressColons (colonJoin gs) = colonJoin gs := by
  apply firstChange_of_fixed
  simp only [List.map_cons, List.map_nil, List.forall_mem_cons, List.not_mem_nil, false_imp_iff,
    implies_true, and_true]
  exact ⟨shortenColons_colonJoin hgs 5, shortenColons_colonJoin hgs 4,
    shortenColons_colonJoin hgs 3, shortenColons_colonJoin hgs 2, shortenColons_colonJoin hgs 1⟩

/-- What stands between the outer groups of a run of `q` empty ones: a colon for each, one
more between two groups, one less at a text end on both sides. -/
theorem colonJoin_run (front back : List (List Char)) (q : ℕ) :
    colonJoin (front ++ List.replicate (q + 1) [] ++ back) =
      colonJoin front ++ (List.replicate (q + (if front = [] then 0 else 1) +
        (if back = [] then 0 else 1)) ':' ++ colonJoin back) := by
  have hrun (k : ℕ) : (List.replicate k ([] : List Char)).flatMap (':' :: ·) =
      List.replicate k ':' := by
    simp [List.flatMap_replicate]
  have hback : back.flatMap (':' :: ·) =
      List.replicate (if back = [] then 0 else 1) ':' ++ colonJoin back := by
    cases back with
    | nil => rfl
    | cons g back => simp [colonJoin_cons]
  cases front with
  | nil =>
      rw [List.nil_append, List.replicate_succ, List.cons_append, colonJoin_cons,
        List.flatMap_append, hrun, hback, ← List.append_assoc (List.replicate q ':'),
        ← List.replicate_add]
      rfl
  | cons g front =>
      rw [List.cons_append, List.cons_append, colonJoin_cons, List.flatMap_append,
        List.flatMap_append, hrun, hback, colonJoin_cons, List.append_assoc,
        ← List.append_assoc (List.replicate (q + 1) ':'), ← List.replicate_add, List.append_assoc]
      rfl

/-! ### Fields of a text -/

/-- For each field between colons whether it is empty. -/
def emptyFields (text : List Char) : List Bool := (text.splitOn ':').map List.isEmpty

theorem emptyFields_append_colon (u v : List Char) :
    emptyFields (u ++ ':' :: v) = emptyFields u ++ emptyFields v := by
  simp [emptyFields, List.splitOn_append_cons_self]

theorem emptyFields_append_colons (u v : List Char) (k : ℕ) :
    emptyFields (u ++ List.replicate (k + 1) ':' ++ v) =
      emptyFields u ++ List.replicate k true ++ emptyFields v := by
  induction k generalizing u with
  | zero => simp [emptyFields_append_colon]
  | succ k ih =>
      have hsplit : u ++ List.replicate (k + 2) ':' ++ v =
          u ++ ':' :: ([] ++ List.replicate (k + 1) ':' ++ v) := by
        simp [List.replicate_succ]
      rw [hsplit, emptyFields_append_colon, ih []]
      simp [emptyFields, List.replicate_succ]

theorem emptyFields_colonJoin {gs : List (List Char)} (hne : gs ≠ []) (hgs : ∀ g ∈ gs, ':' ∉ g) :
    emptyFields (colonJoin gs) = gs.map List.isEmpty := by
  rw [emptyFields, colonJoin, List.splitOn_intercalate ':' hgs hne]

theorem firstChange_cases {α : Type*} [DecidableEq α] (fs : List (α → α)) (a : α) :
    firstChange fs a = a ∨ ∃ f ∈ fs, firstChange fs a = f a := by
  induction fs with
  | nil => exact .inl rfl
  | cons f fs ih =>
      by_cases hf : f a = a
      · rw [firstChange, if_neg (by simp [hf])]
        rcases ih with ih | ⟨f', hf', ih⟩
        · exact .inl ih
        · exact .inr ⟨f', List.mem_cons_of_mem f hf', ih⟩
      · rw [firstChange, if_pos hf]
        exact .inr ⟨f, List.mem_cons_self, rfl⟩

/-- Part 2 leaves the fields alone, or takes some empty ones out of a run. -/
theorem emptyFields_compressColons (text : List Char) :
    emptyFields (compressColons text) = emptyFields text ∨
      ∃ us vs k, emptyFields (compressColons text) = us ++ true :: vs ∧
        emptyFields text = us ++ List.replicate (k + 1) true ++ vs := by
  rcases firstChange_cases ([7, 6, 5, 4, 3].map shortenColons) text with h | ⟨f, hf, h⟩
  · exact .inl (congrArg emptyFields h)
  · obtain ⟨k, hk, rfl⟩ := List.mem_map.mp hf
    obtain ⟨k, rfl⟩ : ∃ j, k = j + 2 := by
      apply Nat.exists_eq_add_of_le'
      simp only [List.mem_cons, List.not_mem_nil, or_false] at hk
      omega
    rw [compressColons, h, shortenColons]
    rcases replaceFirst_cases (List.replicate (k + 2) ':') [':', ':'] text with hsame | hcut
    · exact .inl (congrArg emptyFields hsame)
    · obtain ⟨u, v, htext, hout⟩ := hcut
      refine .inr ⟨emptyFields u, emptyFields v, k, ?_, ?_⟩
      · rw [hout]
        simpa using emptyFields_append_colons u v 1
      · rw [htext, emptyFields_append_colons]

/-! ### Hex digits -/

theorem hexDigit?_digitChar {d : ℕ} (hd : d < 16) : hexDigit? (Nat.digitChar d) = some d := by
  revert d
  decide

/-- The four hex digits of a group. -/
def groupDigits (v : ℕ) : List Char :=
  [Nat.digitChar (v / 4096 % 16), Nat.digitChar (v / 256 % 16), Nat.digitChar (v / 16 % 16),
    Nat.digitChar (v % 16)]

/-- What part 1 leaves of them. -/
def shortGroup (v : ℕ) : List Char := (groupDigits v).dropWhile (· = '0')

def hexFold (g : List Char) : ℕ := g.foldl (fun n c => 16 * n + (hexDigit? c).getD 0) 0

theorem hexFold_dropWhile (g : List Char) : hexFold (g.dropWhile (· = '0')) = hexFold g := by
  induction g with
  | nil => rfl
  | cons c g ih =>
      by_cases hc : c = '0'
      · subst hc
        have hzero : hexFold ('0' :: g) = hexFold g := rfl
        simpa [hzero] using ih
      · simp [hc]

theorem hexFold_groupDigits {v : ℕ} (hv : v < 65536) : hexFold (groupDigits v) = v := by
  have hdigit (x : ℕ) : hexDigit? (Nat.digitChar (x % 16)) = some (x % 16) :=
    hexDigit?_digitChar (Nat.mod_lt x (by decide))
  simp only [hexFold, groupDigits, List.foldl_cons, List.foldl_nil, hdigit, Option.getD_some]
  omega

theorem mem_groupDigits {v : ℕ} {c : Char} (hc : c ∈ groupDigits v) : (hexDigit? c).isSome := by
  have hdigit (x : ℕ) : (hexDigit? (Nat.digitChar (x % 16))).isSome := by
    rw [hexDigit?_digitChar (Nat.mod_lt x (by decide))]
    rfl
  simp only [groupDigits, List.mem_cons, List.not_mem_nil, or_false] at hc
  rcases hc with rfl | rfl | rfl | rfl <;> exact hdigit _

theorem colon_notMem {g : List Char} (hg : ∀ c ∈ g, (hexDigit? c).isSome) : ':' ∉ g := by
  intro hc
  have := hg ':' hc
  revert this
  decide

theorem mem_shortGroup {v : ℕ} {c : Char} (hc : c ∈ shortGroup v) : (hexDigit? c).isSome :=
  mem_groupDigits ((List.dropWhile_suffix _).subset hc)

theorem groupText_shortGroup {v : ℕ} (hv : v < 65536) (hne : v ≠ 0) :
    GroupText (shortGroup v) v := by
  have hvalue : hexFold (shortGroup v) = v := by
    rw [shortGroup, hexFold_dropWhile, hexFold_groupDigits hv]
  refine ⟨?_, ?_, fun c hc => mem_shortGroup hc, hvalue⟩
  · intro hnil
    rw [hnil] at hvalue
    exact hne hvalue.symm
  · exact (List.dropWhile_suffix _).length_le

@[simp] theorem shortGroup_zero : shortGroup 0 = [] := rfl

theorem isEmpty_shortGroup {v : ℕ} (hv : v < 65536) :
    (shortGroup v).isEmpty = decide (v = 0) := by
  by_cases hne : v = 0
  · subst hne
    rfl
  · simpa [hne] using (groupText_shortGroup hv hne).nonempty

theorem group_lt (addr : BitVec 128) (i : ℕ) : group addr i < 65536 :=
  Nat.mod_lt _ (by decide)

/-- A digit of a group among all digits of the address. -/
theorem digit_group (addr : BitVec 128) {i k : ℕ} (hi : i < 8) (hk : k < 4) :
    group addr i / 16 ^ k % 16 = addr.toNat / 16 ^ (31 - (4 * i + (3 - k))) % 16 := by
  have hexp : 31 - (4 * i + (3 - k)) = 4 * (7 - i) + k := by omega
  rw [hexp, Nat.pow_add, Nat.pow_mul, ← Nat.div_div_eq_div_mul, group]
  generalize addr.toNat / (16 ^ 4) ^ (7 - i) = x
  obtain rfl | rfl | rfl | rfl : k = 0 ∨ k = 1 ∨ k = 2 ∨ k = 3 := by omega
  all_goals omega

/-- `tc_parse_ipv6_addr` writes the eight groups with all their digits. -/
theorem tcParseIpv6Addr_hexDigits (addr : BitVec 128) :
    tcParseIpv6Addr (hexDigits addr) =
      some (colonJoin ((List.range 8).map fun i => groupDigits (group addr i))) := by
  have hparse (d : ℕ → Char) : tcParseIpv6Addr ((List.range 32).map d) =
      some (colonJoin ((List.range 8).map fun i =>
        [d (4 * i), d (4 * i + 1), d (4 * i + 2), d (4 * i + 3)])) := rfl
  rw [hexDigits, hparse]
  refine congrArg (fun gs => some (colonJoin gs)) (List.map_congr_left fun i hi => ?_)
  have hi := List.mem_range.mp hi
  have h0 := digit_group addr hi (k := 0) (by decide)
  have h1 := digit_group addr hi (k := 1) (by decide)
  have h2 := digit_group addr hi (k := 2) (by decide)
  have h3 := digit_group addr hi (k := 3) (by decide)
  simp only [groupDigits, Nat.reducePow, Nat.reduceSub, Nat.div_one, Nat.add_zero] at h0 h1 h2 h3 ⊢
  rw [h0, h1, h2, h3]

/-! ### Runs of zero groups -/

/-- One run of `true`, with `false` before and after it. -/
def oneRun (m q n : ℕ) : List Bool :=
  List.replicate m false ++ List.replicate q true ++ List.replicate n false

/-- Repeating one of the `true`s makes the run longer. -/
theorem oneRun_stretch {us vs : List Bool} {m q n : ℕ} (h : us ++ true :: vs = oneRun m q n)
    (k : ℕ) : us ++ List.replicate (k + 1) true ++ vs = oneRun m (q + k) n := by
  induction us generalizing m q with
  | nil =>
      cases m with
      | zero =>
          cases q with
          | zero => cases n <;> simp [oneRun, List.replicate_succ] at h
          | succ q =>
              simp only [oneRun, List.replicate_zero, List.nil_append, List.replicate_succ (n := q),
                List.cons_append, List.cons.injEq, true_and] at h
              rw [h, oneRun, List.nil_append, ← List.append_assoc, ← List.replicate_add,
                show k + 1 + q = q + 1 + k by omega]
              rfl
      | succ m => simp [oneRun, List.replicate_succ] at h
  | cons u us ih =>
      cases m with
      | zero =>
          cases q with
          | zero =>
              have hmem : true ∈ oneRun 0 0 n := h ▸ by simp
              simp [oneRun] at hmem
          | succ q =>
              simp only [oneRun, List.replicate_zero, List.nil_append, List.replicate_succ (n := q),
                List.cons_append, List.cons.injEq] at h
              have hrest := ih (m := 0) (q := q) (by simpa [oneRun] using h.2)
              rw [h.1, List.cons_append, List.cons_append, hrest, Nat.add_right_comm]
              rfl
      | succ m =>
          simp only [oneRun, List.replicate_succ (n := m), List.cons_append, List.cons.injEq] at h
          have hrest := ih (m := m) (q := q) (by simpa [oneRun] using h.2)
          rw [h.1, List.cons_append, List.cons_append, hrest]
          rfl

/-- A run that leaves two colons: at an end of the text it has at least two fields. -/
structure LeavesTwo (m q n : ℕ) : Prop where
  pos : 1 ≤ q
  first : m = 0 → 2 ≤ q
  last : n = 0 → 2 ≤ q

theorem Solid.of_groupText {gs : List (List Char)} {vs : List ℕ}
    (h : List.Forall₂ GroupText gs vs) : Solid gs := by
  induction h with
  | nil => exact fun g hg => absurd hg List.not_mem_nil
  | cons hg _ ih =>
      exact List.forall_mem_cons.mpr ⟨⟨hg.nonempty, colon_notMem hg.digits⟩, ih⟩

theorem emptyFields_solid {gs : List (List Char)} (hgs : Solid gs) (hne : gs ≠ []) :
    emptyFields (colonJoin gs) = List.replicate gs.length false := by
  rw [emptyFields_colonJoin hne fun g hg => (hgs g hg).2, List.eq_replicate_iff]
  refine ⟨by simp, ?_⟩
  intro b hb
  obtain ⟨g, hg, rfl⟩ := List.mem_map.mp hb
  simpa using (hgs g hg).1

/-- The empty fields of a valid text form. -/
theorem emptyFields_of_ipv6Text {text : List Char} {addr : BitVec 128} (h : Ipv6Text text addr) :
    emptyFields text = List.replicate 8 false ∨
      ∃ m q n, LeavesTwo m q n ∧ emptyFields text = oneRun m q n := by
  cases h with
  | full h =>
      have hlen := h.length_eq
      refine .inl ?_
      rw [emptyFields_solid (.of_groupText h), hlen]
      · simp
      · rintro rfl
        simp at hlen
  | @compressed front back vs ws addr hfront hback =>
      have hends := emptyFields_append_colons (colonJoin front) (colonJoin back) 1
      have hf := emptyFields_solid (.of_groupText hfront)
      have hb := emptyFields_solid (.of_groupText hback)
      have hnil : emptyFields (colonJoin []) = [true] := rfl
      refine .inr ⟨front.length,
        1 + (if front = [] then 1 else 0) + (if back = [] then 1 else 0), back.length, ?_, ?_⟩
      · constructor
        · omega
        · intro h0
          rw [if_pos (List.eq_nil_of_length_eq_zero h0)]
          omega
        · intro h0
          rw [if_pos (List.eq_nil_of_length_eq_zero h0)]
          omega
      · refine hends.trans ?_
        by_cases hfn : front = [] <;> by_cases hbn : back = []
        · simp [hfn, hbn, hnil, oneRun, List.replicate_succ]
        · simp [hfn, hbn, hnil, hb hbn, oneRun, List.replicate_succ]
        · simp [hfn, hbn, hnil, hf hfn, oneRun, List.replicate_succ]
        · simp [hfn, hbn, hf hfn, hb hbn, oneRun]

/-- The zero groups of an address are consecutive, and at least two if the first or the
last group is one of them. -/
structure OneZeroRun (addr : BitVec 128) : Prop where
  convex : ∀ k < 8, ∀ j < k, ∀ i < j, group addr i = 0 → group addr k = 0 → group addr j = 0
  first : group addr 0 = 0 → group addr 1 = 0
  last : group addr 7 = 0 → group addr 6 = 0

/-- For each group whether it is zero. -/
def zeroGroups (addr : BitVec 128) : List Bool :=
  (List.range 8).map fun i => decide (group addr i = 0)

theorem group_eq_zero_iff {addr : BitVec 128} {m q n : ℕ} (h : zeroGroups addr = oneRun m q n)
    {i : ℕ} (hi : i < 8) : group addr i = 0 ↔ m ≤ i ∧ i < m + q := by
  have hget := congrArg (·[i]?) h
  simp only [zeroGroups, oneRun, List.getElem?_map, List.getElem?_range hi, Option.map_some,
    List.getElem?_append, List.getElem?_replicate, List.length_append,
    List.length_replicate] at hget
  split_ifs at hget with hin hm hn
  · simp only [Option.some.injEq, decide_eq_false_iff_not] at hget
    exact iff_of_false hget (by omega)
  · simp only [Option.some.injEq, decide_eq_true_eq] at hget
    exact iff_of_true hget (by omega)
  · simp only [Option.some.injEq, decide_eq_false_iff_not] at hget
    exact iff_of_false hget (by omega)

theorem oneZeroRun_of_zeroGroups {addr : BitVec 128} {m q n : ℕ} (hends : LeavesTwo m q n)
    (h : zeroGroups addr = oneRun m q n) : OneZeroRun addr := by
  have hsum : m + q + n = 8 := by
    have hlen := congrArg List.length h
    simp only [zeroGroups, oneRun, List.length_map, List.length_range, List.length_append,
      List.length_replicate] at hlen
    omega
  obtain ⟨hpos, hfirst, hlast⟩ := hends
  refine ⟨?_, ?_, ?_⟩
  · intro k hk j hj i hi hzi hzk
    have hi' := (group_eq_zero_iff h (by omega)).mp hzi
    have hk' := (group_eq_zero_iff h hk).mp hzk
    exact (group_eq_zero_iff h (by omega)).mpr (by omega)
  · intro h0
    have h0' := (group_eq_zero_iff h (by decide)).mp h0
    exact (group_eq_zero_iff h (by decide)).mpr (by omega)
  · intro h7
    have h7' := (group_eq_zero_iff h (by decide)).mp h7
    exact (group_eq_zero_iff h (by decide)).mpr (by omega)

/-- Where the run of zero groups is, if there is one. -/
theorem OneZeroRun.exists_run {addr : BitVec 128} (h : OneZeroRun addr) :
    (∀ i < 8, group addr i ≠ 0) ∨
      ∃ m q n, m + q + n = 8 ∧ LeavesTwo m q n ∧ ∀ i < 8,
        (group addr i = 0 ↔ m ≤ i ∧ i < m + q) := by
  by_cases hnone : ∀ i < 8, group addr i ≠ 0
  · exact .inl hnone
  simp only [not_forall, ne_eq, not_not] at hnone
  obtain ⟨z, hz, hzero⟩ := hnone
  -- The first zero group from the left, and from the right.
  have hleft : ∃ i, i < 8 ∧ group addr i = 0 := ⟨z, hz, hzero⟩
  have hright : ∃ d, d < 8 ∧ group addr (7 - d) = 0 :=
    ⟨7 - z, by omega, by rwa [Nat.sub_sub_self (by omega)]⟩
  obtain ⟨hm, hmzero⟩ := Nat.find_spec hleft
  obtain ⟨hd, hdzero⟩ := Nat.find_spec hright
  have hmin (i : ℕ) (hi : i < 8) (hi0 : group addr i = 0) : Nat.find hleft ≤ i :=
    Nat.find_min' hleft ⟨hi, hi0⟩
  have hmax (i : ℕ) (hi : i < 8) (hi0 : group addr i = 0) : Nat.find hright ≤ 7 - i :=
    Nat.find_min' hright ⟨by omega, by rwa [Nat.sub_sub_self (by omega)]⟩
  have hle := hmin _ (by omega) hdzero
  generalize Nat.find hleft = m at hm hmzero hmin hle
  generalize Nat.find hright = d at hd hdzero hmax hle
  refine .inr ⟨m, 8 - m - d, d, by omega, ⟨by omega, ?_, ?_⟩, ?_⟩
  · rintro rfl
    have h1 := hmax 1 (by decide) (h.first hmzero)
    omega
  · rintro rfl
    have h6 := hmin 6 (by decide) (h.last hdzero)
    omega
  · intro i hi
    constructor
    · intro hi0
      have hlo := hmin i hi hi0
      have hhi := hmax i hi hi0
      omega
    · rintro ⟨hlo, hhi⟩
      rcases hlo.eq_or_lt with rfl | hlo
      · exact hmzero
      · rcases (show i ≤ 7 - d by omega).eq_or_lt with rfl | hhi
        · exact hdzero
        · exact h.convex (7 - d) (by omega) i hhi m hlo hmzero hdzero

/-! ### The result -/

/-- The text part 1 ends with. -/
def shortText (addr : BitVec 128) : List Char :=
  colonJoin ((List.range 8).map fun i => shortGroup (group addr i))

theorem dropZeros_groups (addr : BitVec 128) {fuel : ℕ} (hfuel : 5 ≤ fuel) :
    dropZeros fuel [] (colonJoin ((List.range 8).map fun i => groupDigits (group addr i))) =
      some (shortText addr) := by
  have hcolon : ∀ g ∈ (List.range 8).map fun i => groupDigits (group addr i), ':' ∉ g := by
    intro g hg
    obtain ⟨i, -, rfl⟩ := List.mem_map.mp hg
    exact colon_notMem fun c hc => mem_groupDigits hc
  have hiter (n : ℕ) (hn : 4 ≤ n) : dropZerosOnce^[n] (colonJoin ((List.range 8).map fun i =>
      groupDigits (group addr i))) = shortText addr := by
    rw [iterate_dropZerosOnce hcolon, List.map_map]
    exact congrArg colonJoin (List.map_congr_left fun i _ => iterate_dropZero hn)
  rw [← hiter 4 le_rfl]
  apply dropZeros_of_fixed
  · rw [← Function.iterate_succ_apply' dropZerosOnce, hiter 5 (by decide), hiter 4 le_rfl]
  · intro hnil
    rw [← hnil]
    rfl
  · omega

theorem emptyFields_shortText (addr : BitVec 128) :
    emptyFields (shortText addr) = zeroGroups addr := by
  rw [shortText, emptyFields_colonJoin (by simp [List.range_succ]), List.map_map]
  · exact List.map_congr_left fun i _ => isEmpty_shortGroup (group_lt addr i)
  · intro g hg
    obtain ⟨i, -, rfl⟩ := List.mem_map.mp hg
    exact colon_notMem fun c hc => mem_shortGroup hc

/-- If the result is a valid form, there was at most one run of zero groups. -/
theorem oneZeroRun_of_ipv6Text {addr : BitVec 128}
    (h : Ipv6Text (compressColons (shortText addr)) addr) : OneZeroRun addr := by
  have hfields := emptyFields_of_ipv6Text h
  rcases emptyFields_compressColons (shortText addr) with hsame | ⟨us, vs, k, hout, hin⟩
  · rw [hsame, emptyFields_shortText] at hfields
    rcases hfields with hnone | ⟨m, q, n, hends, hrun⟩
    · have hnz (i : ℕ) (hi : i < 8) : group addr i ≠ 0 := by
        have hmem : decide (group addr i = 0) ∈ zeroGroups addr :=
          List.mem_map_of_mem (List.mem_range.mpr hi)
        rw [hnone] at hmem
        simpa using List.eq_of_mem_replicate hmem
      exact ⟨fun k _ j _ i hi h0 => absurd h0 (hnz i (by omega)),
        fun h0 => absurd h0 (hnz 0 (by decide)), fun h7 => absurd h7 (hnz 7 (by decide))⟩
    · exact oneZeroRun_of_zeroGroups hends hrun
  · rw [emptyFields_shortText] at hin
    rw [hout] at hfields
    rcases hfields with hnone | ⟨m, q, n, ⟨hpos, hfirst, hlast⟩, hrun⟩
    · have hmem : true ∈ List.replicate 8 false := hnone ▸ by simp
      simp at hmem
    · rw [oneRun_stretch hrun k] at hin
      exact oneZeroRun_of_zeroGroups ⟨by omega, fun h0 => by have := hfirst h0; omega,
        fun h0 => by have := hlast h0; omega⟩ hin

theorem forall₂_groupText (addr : BitVec 128) (is : List ℕ)
    (his : ∀ i ∈ is, group addr i ≠ 0) :
    List.Forall₂ GroupText (is.map fun i => shortGroup (group addr i)) (is.map (group addr)) := by
  rw [List.forall₂_map_left_iff, List.forall₂_map_right_iff, List.forall₂_same]
  intro i hi
  exact groupText_shortGroup (group_lt addr i) (his i hi)

theorem ipv6Text_of_oneZeroRun {addr : BitVec 128} (h : OneZeroRun addr) :
    Ipv6Text (compressColons (shortText addr)) addr := by
  rcases h.exists_run with hnone | ⟨m, q, n, hsum, hends, hzero⟩
  · have hgroups : List.Forall₂ GroupText ((List.range 8).map fun i => shortGroup (group addr i))
        ((List.range 8).map (group addr)) :=
      forall₂_groupText addr _ fun i hi => hnone i (List.mem_range.mp hi)
    rw [shortText, compressColons_colonJoin (.of_groupText hgroups)]
    exact .full hgroups
  · have hrange : List.range 8 = List.range m ++ List.range' m q ++ List.range' (m + q) n := by
      have happend := List.range'_append_1 (s := 0) (m := m) (n := q + n)
      rw [Nat.zero_add] at happend
      rw [List.append_assoc, List.range'_append_1, ← hsum, List.range_eq_range',
        List.range_eq_range', happend, Nat.add_assoc]
    have hmid (i : ℕ) (hi : i ∈ List.range' m q) : group addr i = 0 := by
      have := List.mem_range'_1.mp hi
      exact (hzero i (by omega)).mpr this
    have hempty : (List.range' m q).map (fun i => shortGroup (group addr i)) =
        List.replicate q [] := by
      rw [List.map_congr_left fun i hi => by rw [hmid i hi, shortGroup_zero], List.map_const',
        List.length_range']
    have hzeros : (List.range' m q).map (group addr) = List.replicate q 0 := by
      rw [List.map_congr_left hmid, List.map_const', List.length_range']
    have hfront := forall₂_groupText addr (List.range m) fun i hi => by
      have := List.mem_range.mp hi
      exact mt (hzero i (by omega)).mp (by omega)
    have hback := forall₂_groupText addr (List.range' (m + q) n) fun i hi => by
      have := List.mem_range'_1.mp hi
      exact mt (hzero i (by omega)).mp (by omega)
    obtain ⟨hpos, hfirst, hlast⟩ := hends
    obtain ⟨q, rfl⟩ : ∃ j, q = j + 1 := Nat.exists_eq_add_of_le' hpos
    rw [shortText, hrange, List.map_append, List.map_append, hempty, colonJoin_run,
      compressColons_run (.of_groupText hfront) (.of_groupText hback), ← List.append_assoc]
    · refine .compressed hfront hback (by simp; omega) ?_
      rw [hrange, List.map_append, List.map_append, hzeros]
      simp only [List.length_map, List.length_range, List.length_range']
      congr 3
      omega
    · simp only [List.map_eq_nil_iff, List.range_eq_nil, List.range'_eq_nil_iff]
      split_ifs <;> omega
    · simp only [List.map_eq_nil_iff, List.range_eq_nil, List.range'_eq_nil_iff]
      split_ifs <;> omega

/-- `tc_ipv6_normalize` ends for every address, and its result is a valid form of the
address exactly if there is no or one run of zero groups, at an end of at least two. -/
theorem tcIpv6Normalize_preserves_iff (addr : BitVec 128) :
    ∃ text out, tcParseIpv6Addr (hexDigits addr) = some text ∧
      (∀ fuel ≥ 5, tcIpv6Normalize fuel text = some out) ∧
      (Ipv6Text out addr ↔
        (∀ k < 8, ∀ j < k, ∀ i < j, group addr i = 0 → group addr k = 0 → group addr j = 0) ∧
          (group addr 0 = 0 → group addr 1 = 0) ∧ (group addr 7 = 0 → group addr 6 = 0)) := by
  refine ⟨_, compressColons (shortText addr), tcParseIpv6Addr_hexDigits addr, ?_, ?_⟩
  · intro fuel hfuel
    rw [tcIpv6Normalize, dropZeros_groups addr hfuel]
    rfl
  · constructor
    · intro h
      have hrun := oneZeroRun_of_ipv6Text h
      exact ⟨hrun.convex, hrun.first, hrun.last⟩
    · rintro ⟨hconvex, hfirst, hlast⟩
      exact ipv6Text_of_oneZeroRun ⟨hconvex, hfirst, hlast⟩

/-- Two single zero groups: `1:0:2:0:3:4:5:6`. -/
def twoZeros : BitVec 128 := 0x00010000000200000003000400050006

theorem tcIpv6Normalize_two_runs :
    tcIpv6Normalize 5 "0001:0000:0002:0000:0003:0004:0005:0006".toList =
        some "1::2::3:4:5:6".toList ∧
      tcParseIpv6Addr (hexDigits twoZeros) =
        some "0001:0000:0002:0000:0003:0004:0005:0006".toList ∧
      ¬Ipv6Text "1::2::3:4:5:6".toList twoZeros := by
  have hout : compressColons (shortText twoZeros) = "1::2::3:4:5:6".toList := by decide +kernel
  refine ⟨by decide +kernel, by decide +kernel, ?_⟩
  rw [← hout]
  intro h
  have h2 := (oneZeroRun_of_ipv6Text h).convex 3 (by decide) 2 (by decide) 1 (by decide)
  revert h2
  decide +kernel

end AutotestClient.Harness
