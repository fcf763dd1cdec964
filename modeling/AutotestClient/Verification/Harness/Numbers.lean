import AutotestClient.Model.Harness.Numbers
import AutotestClient.Shared.Digits
import AutotestClient.Verification.Harness.Waiters

/-! # Round trips through hexadecimal

The functions take the status of `((x+=0))` for the validity of a number. That status is 1 for
zero. -/

namespace AutotestClient.Harness

open Shared Waiters

variable {expr : List Char → Option ℤ} {date : List Char} {s : State} {n v : ℤ} {digits : Option ℕ}
  {case : Char} {text ds : List Char}

/-! ## Arithmetic -/

theorem wrap_eq (hmin : -2 ^ 63 ≤ n) (hmax : n < 2 ^ 63) : wrap n = n :=
  Int.bmod_eq_of_le (by omega) (by omega)

/-- The unsigned word of a number stands for it. -/
theorem wrap_word (hmin : -2 ^ 63 ≤ n) (hmax : n < 2 ^ 63) : wrap ((n % 2 ^ 64).toNat : ℤ) = n := by
  have hword : ((n % 2 ^ 64).toNat : ℤ) = n % ((2 ^ 64 : ℕ) : ℤ) := by
    rw [Int.toNat_of_nonneg (by omega)]
    rfl
  rw [wrap, hword, Int.emod_bmod]
  exact wrap_eq hmin hmax

theorem arith_signed (h : SignedNumeral text v) : arith expr text = some (wrap v) := by
  have hscan := scanSigned_append h stops_nil
  rw [List.append_nil] at hscan
  rw [arith, hscan]

theorem arith_printInt (hmin : -2 ^ 63 ≤ n) (hmax : n < 2 ^ 63) :
    arith expr (printInt n) = some n := by
  rw [arith_signed (signedNumeral_printInt n), wrap_eq hmin hmax]

theorem arith_hex {x : Char} (hx : x = 'x' ∨ x = 'X') (hne : ds ≠ [])
    (hds : ∀ d ∈ ds, isDigitOf 16 d) :
    arith expr ('0' :: x :: ds) = some (wrap (digitsValue 16 ds)) :=
  arith_signed (.plain (.hexadecimal hx hne hds))

/-! ## Tests of arguments -/

theorem orExit_fail {ok : Bool} (hok : ok = false) (m : String) (s : State) :
    orExit ok m s = .error (tcBreakIfBadRc 1 [m] s).1 := by
  simp only [orExit, hok, Bool.false_eq_true, if_false, tcBreakIfBadRc_status_one, ne_eq,
    Nat.one_ne_zero, not_false_eq_true, if_true]

theorem checkDigits_pass (h : ∀ d ∈ digits, 1 ≤ d ∧ d ≤ intMax) (funcname : String) (s : State) :
    checkDigits funcname digits s = .ok s := by
  cases digits with
  | none => rfl
  | some d =>
      obtain ⟨hpos, hle⟩ := h d rfl
      rw [intMax] at hle
      have hwrap : wrap d = d := wrap_eq (by omega) (by omega)
      have hok : decide (0 < wrap d) = true := decide_eq_true (by omega)
      rw [checkDigits, orExit_pass hok]

/-! ## Hexadecimal text -/

theorem hexText_spec (case : Char) (v : ℤ) :
    hexText case v ≠ [] ∧ (∀ d ∈ hexText case v, isDigitOf 16 d) ∧
      digitsValue 16 (hexText case v) = (v % 2 ^ 64).toNat := by
  have hdigits : ∀ d ∈ Nat.toDigits 16 (v % 2 ^ 64).toNat, isDigitOf 16 d :=
    isDigitOf_toDigits (by decide) le_rfl
  have hvalue := digitsValue_toDigits (by decide : 1 < 16) le_rfl (v % 2 ^ 64).toNat
  rw [hexText]
  split_ifs
  · refine ⟨by simp, ?_, ?_⟩
    · intro d hd
      obtain ⟨c, hc, rfl⟩ := List.mem_map.mp hd
      rw [isDigitOf, digitValue?_toUpper (hdigits c hc)]
      exact hdigits c hc
    · rw [digitsValue_map fun c hc => digitValue?_toUpper (hdigits c hc), hvalue]
  · exact ⟨Nat.toDigits_ne_nil, hdigits, hvalue⟩

/-- Leading zeros do not matter. -/
theorem zeroPad_spec (hne : ds ≠ []) (hds : ∀ d ∈ ds, isDigitOf 16 d)
    (hdigits : ∀ d ∈ digits, d ≤ intMax) :
    zeroPad digits [] ds ≠ [] ∧ (∀ d ∈ zeroPad digits [] ds, isDigitOf 16 d) ∧
      digitsValue 16 (zeroPad digits [] ds) = digitsValue 16 ds := by
  cases digits with
  | none => exact ⟨hne, hds, rfl⟩
  | some width =>
      rw [zeroPad, if_neg (not_lt.mpr (hdigits width rfl)), List.nil_append]
      refine ⟨by simp [hne], ?_, digitsValue_zeros _ ds⟩
      rw [List.forall_mem_append]
      refine ⟨?_, hds⟩
      intro d hd
      rw [List.eq_of_mem_replicate hd]
      decide

/-! ## The functions -/

/-- The texts of the third argument of `tc_dec2hex`. -/
def cases : List (List Char) := [[], ['x'], ['X']]

theorem tcDec2hex_eq {c : List Char} (hc : c ∈ cases) (hmin : -2 ^ 63 ≤ n) (hmax : n < 2 ^ 63)
    (hn : n ≠ 0) (hdigits : ∀ d ∈ digits, 1 ≤ d ∧ d ≤ intMax) (s : State) :
    tcDec2hex expr (printInt n) digits c s =
      .ok (s, zeroPad digits [] (hexText (c.headD 'X') n)) := by
  rw [tcDec2hex, arith_printInt hmin hmax]
  simp only [orExit_pass (decide_eq_true hn), checkDigits_pass hdigits]
  simp only [cases, List.mem_cons, List.not_mem_nil, or_false] at hc
  rcases hc with rfl | rfl | rfl
  all_goals rfl

theorem tcDec2hex_zero (digits : Option ℕ) (c : List Char) (s : State) :
    tcDec2hex expr (printInt 0) digits c s = .error (tcBreakIfBadRc 1
      ["tc_dec2hex: Internal testcase error: first arg must be decimal integer"] s).1 := by
  have hvalue : arith expr (printInt 0) = some 0 := arith_signed (signedNumeral_printInt 0)
  rw [tcDec2hex, hvalue]
  simp only [orExit_fail (decide_eq_false (not_not.mpr rfl))]
  rfl

/-- Too wide a field is not accepted, or leaves nothing to print. -/
theorem tcDec2hex_wide (expr : List Char → Option ℤ) {c : List Char} (hc : c ∈ cases)
    (hmin : -2 ^ 63 ≤ n) (hmax : n < 2 ^ 63) (hn : n ≠ 0) {width : ℕ} (hwide : intMax < width)
    (s : State) :
    (∃ t, tcDec2hex expr (printInt n) (some width) c s = .error t) ∨
      tcDec2hex expr (printInt n) (some width) c s = .ok (s, []) := by
  have hpad (ds : List Char) : zeroPad (some width) [] ds = [] := if_pos hwide
  rw [tcDec2hex, arith_printInt hmin hmax]
  simp only [orExit_pass (decide_eq_true hn), checkDigits, hpad]
  by_cases hpos : 0 < wrap width
  · right
    simp only [orExit_pass (decide_eq_true hpos)]
    simp only [cases, List.mem_cons, List.not_mem_nil, or_false] at hc
    rcases hc with rfl | rfl | rfl
    all_goals rfl
  · left
    simp only [orExit_fail (decide_eq_false hpos)]
    exact ⟨_, rfl⟩

/-- The text that `tc_hex2dec` evaluates. -/
def hexNum (num : List Char) : List Char :=
  if num.take 2 = ['0', 'x'] ∨ num.take 2 = ['0', 'X'] then num else '0' :: 'x' :: num

theorem tcHex2dec_value {num : List Char} (hvalue : arith expr (hexNum num) = some v) (hv : v ≠ 0)
    (s : State) : tcHex2dec expr num none s = .ok (s, printInt v) := by
  rw [hexNum] at hvalue
  rw [tcHex2dec, printInt_eq]
  simp only [hvalue, Option.getD_some, orExit_pass (decide_eq_true hv)]
  rfl

/-- Zero is taken for an invalid number. -/
theorem tcHex2dec_zero {num : List Char} (hvalue : (arith expr (hexNum num)).getD 0 = 0)
    (digits : Option ℕ) (s : State) :
    tcHex2dec expr num digits s = .error (tcBreakIfBadRc 1
      ["tc_hex2dec: Internal testcase error: first arg must be hex integer"] s).1 := by
  rw [hexNum] at hvalue
  rw [tcHex2dec]
  simp only [hvalue, orExit_fail (decide_eq_false (not_not.mpr rfl))]
  rfl

/-- The texts that may stand before a hexadecimal number. -/
def hexPrefixes : List (List Char) := [[], ['0', 'x'], ['0', 'X']]

theorem arith_hexNum (expr : List Char → Option ℤ) {pre : List Char}
    (hpre : pre ∈ hexPrefixes) (hne : ds ≠ []) (hds : ∀ d ∈ ds, isDigitOf 16 d) :
    arith expr (hexNum (pre ++ ds)) = some (wrap (digitsValue 16 ds)) := by
  simp only [hexPrefixes, List.mem_cons, List.not_mem_nil, or_false] at hpre
  rcases hpre with rfl | rfl | rfl
  · have htake {x : Char} (hx : isDigitOf 16 x = false) : ds.take 2 ≠ ['0', x] := by
      intro htake
      have hmem : x ∈ ds := List.mem_of_mem_take (by rw [htake]; simp)
      exact Bool.false_ne_true (hx.symm.trans (hds x hmem))
    rw [List.nil_append, hexNum, if_neg (not_or.mpr ⟨htake (by decide), htake (by decide)⟩)]
    exact arith_hex (.inl rfl) hne hds
  · exact arith_hex (.inl rfl) hne hds
  · exact arith_hex (.inr rfl) hne hds

/-! ## Round trips -/

/-- `tc_hex2dec` gives back the number that `tc_dec2hex` has written, with any prefix. -/
def RoundTrips (expr : List Char → Option ℤ) (n : ℤ) (digits : Option ℕ) (case : List Char)
    (s : State) : Prop :=
  ∃ t text, tcDec2hex expr (printInt n) digits case s = .ok (t, text) ∧
    ∀ pre ∈ hexPrefixes, ∃ u, tcHex2dec expr (pre ++ text) none t = .ok (u, printInt n)

theorem roundTrips_iff {c : List Char} (hmin : -2 ^ 63 ≤ n) (hmax : n < 2 ^ 63)
    (hdigits : ∀ d ∈ digits, 1 ≤ d) (hc : c ∈ cases) :
    RoundTrips expr n digits c s ↔ n ≠ 0 ∧ ∀ d ∈ digits, d ≤ intMax := by
  constructor
  · rintro ⟨t, text, htext, hback⟩
    have hn : n ≠ 0 := by
      rintro rfl
      rw [tcDec2hex_zero] at htext
      cases htext
    refine ⟨hn, ?_⟩
    intro d hd
    by_contra hwide
    cases hd
    rcases tcDec2hex_wide expr hc hmin hmax hn (not_le.mp hwide) s with ⟨t', herror⟩ | hempty
    · rw [herror] at htext
      cases htext
    · rw [hempty] at htext
      obtain ⟨rfl, rfl⟩ := Prod.mk.inj (Except.ok.inj htext)
      obtain ⟨u, hu⟩ := hback [] List.mem_cons_self
      rw [List.append_nil, tcHex2dec_zero rfl] at hu
      cases hu
  · rintro ⟨hn, hwide⟩
    have hspec := hexText_spec (c.headD 'X') n
    have hpad := zeroPad_spec hspec.1 hspec.2.1 hwide
    have hvalue : wrap (digitsValue 16 (zeroPad digits [] (hexText (c.headD 'X') n))) = n := by
      rw [hpad.2.2, hspec.2.2, wrap_word hmin hmax]
    refine ⟨s, _, tcDec2hex_eq hc hmin hmax hn (fun d hd => ⟨hdigits d hd, hwide d hd⟩) s, ?_⟩
    intro pre hpre
    have hnum := arith_hexNum expr hpre hpad.1 hpad.2.1
    rw [hvalue] at hnum
    exact ⟨s, tcHex2dec_value hnum hn s⟩

/-! ## Addresses -/

/-- The value of the digits from the `k`-th on. -/
def byteAt (addr : List Char) (k : ℕ) : ℕ := digitsValue 16 ((addr.drop k).take 2)

/-- `tc_parse_ipv4_addr` prints the four bytes. -/
def PrintsDotted (expr : List Char → Option ℤ) (date addr : List Char) (s : State) : Prop :=
  ∃ t, tcParseIpv4Addr expr date addr s =
    .ok (t, ['.'].intercalate ([0, 2, 4, 6].map fun k => printInt (byteAt addr k)) ++ ['\n'])

/-- A report ends with an information. -/
theorem reportFailure_ends (line : Line) (rc : ℤ) (ms : List String) (s : State) :
    ∃ t m, (reportFailure line rc ms s).1 = tcInfo [m] t := ⟨_, _, rfl⟩

theorem tcBreakIfBadRc_ends (m : String) (s : State) :
    ∃ t text null, (tcBreakIfBadRc 1 [m] s).1 = (tcInfo [text] t).setStderrNull null := by
  rw [tcBreakIfBadRc, ignoringStderr, tcFailIfBad, if_pos (.inl Int.one_ne_zero), tcPassOrFail,
    if_neg fun h => Int.one_ne_zero h.1]
  obtain ⟨t, text, hend⟩ := reportFailure_ends
    (.fail s.tstCount s.tcname m) 1 [m] (s.setStderrNull true).recordFail
  exact ⟨t, text, s.console.stderrIsNull, congrArg (State.setStderrNull · _) hend⟩

theorem space_mem_info (date : List Char) (count : ℤ) (m : String) :
    ' ' ∈ Line.shown date (.info count m) := by
  have hspace : ' ' ∈ " INFO ".toList := by decide +kernel
  have hinfo := List.mem_append_left (printInt count) hspace
  exact List.mem_append_left _ (List.mem_append_left _ (List.mem_append_left _ hinfo))

theorem space_mem_report (date : List Char) (m : String) (s : State) :
    ' ' ∈ (tcBreakIfBadRc 1 [m] s).1.shown date := by
  obtain ⟨t, text, null, hend⟩ := tcBreakIfBadRc_ends m s
  have hlines : ((tcInfo [text] t).setStderrNull null).console.lines =
      .info t.tstCount (escapePercent text) :: t.console.lines := rfl
  rw [State.shown, hend, hlines, List.reverse_cons, List.flatMap_append, List.mem_append]
  right
  rw [List.flatMap_singleton]
  exact space_mem_info date _ _

/-! ## Command substitution -/

section Substitution

variable {f : State → Except State (State × List Char)} {out : List Char}

theorem rdropWhile_newline (hout : '\n' ∉ out) : out.rdropWhile (· = '\n') = out :=
  rdropWhile_of_forall fun _ hc => decide_eq_false fun heq => hout (heq ▸ hc)

theorem substitute_ok (hf : ∀ t, f t = .ok (t, out)) (hout : '\n' ∉ out) :
    substitute date f s = (s, out) := by
  rw [substitute, hf]
  exact Prod.ext rfl (rdropWhile_newline hout)

theorem substitute_line (hf : ∀ t, f t = .ok (t, out ++ ['\n'])) (hout : '\n' ∉ out) :
    substitute date f s = (s, out) := by
  have hlast : (out ++ ['\n']).rdropWhile (· = '\n') = out := by
    rw [List.rdropWhile_concat_pos _ _ _ (by decide), rdropWhile_newline hout]
  rw [substitute, hf]
  exact Prod.ext rfl hlast

/-- The report of a function that exits becomes the text. -/
theorem substitute_error {m : String} (hf : ∀ t, f t = .error (tcBreakIfBadRc 1 [m] t).1) :
    ' ' ∈ (substitute date f s).2 := by
  have hmem {text : List Char} (h : ' ' ∈ text) : ' ' ∈ text.rdropWhile (· = '\n') := by
    have hparts := List.rdropWhile_append_rtakeWhile (p := (· = '\n')) (l := text)
    rw [← hparts] at h
    rcases List.mem_append.mp h with h | h
    · exact h
    · exact absurd (List.mem_rtakeWhile_imp h) (by decide)
  rw [substitute, hf]
  exact hmem (space_mem_report date m _)

end Substitution

/-- The text of one byte of the address. -/
def partText (expr : List Char → Option ℤ) (date addr : List Char) (k : ℕ) (t : State) :
    List Char :=
  (substitute date (tcHex2dec expr ((addr.drop k).take 2) none) t).2

theorem tcParseIpv4Addr_eq (expr : List Char → Option ℤ) (date : List Char) (s : State)
    {addr : List Char} (haddr : addr ≠ []) :
    ∃ (t : State) (before : ℕ → State), tcParseIpv4Addr expr date addr s =
      .ok (t, ['.'].intercalate ([0, 2, 4, 6].map fun k => partText expr date addr k (before k)) ++
        ['\n']) := by
  let next (t : State) (k : ℕ) : State :=
    (substitute date (tcHex2dec expr ((addr.drop k).take 2) none) t).1
  let before (k : ℕ) : State :=
    match k with
    | 0 => s
    | 2 => next s 0
    | 4 => next (next s 0) 2
    | _ => next (next (next s 0) 2) 4
  have hdots (p q r w : List Char) :
      ['.'].intercalate [p, q, r, w] = p ++ '.' :: q ++ '.' :: r ++ '.' :: w := by
    simp [List.intercalate_cons_cons]
  refine ⟨next (next (next (next s 0) 2) 4) 6, before, ?_⟩
  rw [tcParseIpv4Addr, orExit_pass (decide_eq_true haddr)]
  simp only [List.map_cons, List.map_nil, hdots]
  rfl

theorem partText_eq (expr : List Char → Option ℤ) (date : List Char) {addr : List Char} {k : ℕ}
    (hk : k < addr.length) (haddr : ∀ c ∈ addr, isDigitOf 16 c) (t : State) :
    if byteAt addr k = 0 then ' ' ∈ partText expr date addr k t
    else partText expr date addr k t = printInt (byteAt addr k) := by
  have hpart : ∀ d ∈ (addr.drop k).take 2, isDigitOf 16 d :=
    fun d hd => haddr d (List.mem_of_mem_drop (List.mem_of_mem_take hd))
  have hne : (addr.drop k).take 2 ≠ [] := by
    rw [← List.length_pos_iff, List.length_take, List.length_drop]
    omega
  have hlt : byteAt addr k < 256 := by
    have hpow : 16 ^ ((addr.drop k).take 2).length ≤ 16 ^ 2 :=
      Nat.pow_le_pow_right (by decide) (List.length_take_le 2 _)
    exact lt_of_lt_of_le (digitsValue_lt hpart) hpow
  have hvalue : arith expr (hexNum ((addr.drop k).take 2)) = some (byteAt addr k : ℤ) := by
    have hnum := arith_hexNum expr List.mem_cons_self hne hpart
    rwa [wrap_eq (by omega) (by rw [← byteAt]; omega)] at hnum
  split_ifs with hzero
  · rw [hzero] at hvalue
    exact substitute_error (tcHex2dec_zero (by rw [hvalue]; rfl) none)
  · have hpos : (byteAt addr k : ℤ) ≠ 0 := Int.natCast_ne_zero.mpr hzero
    have hline : '\n' ∉ printInt (byteAt addr k) := not_mem_printInt (by decide) (by decide) _
    rw [partText, substitute_ok (tcHex2dec_value hvalue hpos) hline]

theorem printsDotted_iff {addr : List Char} (hlength : addr.length = 8)
    (haddr : ∀ c ∈ addr, isDigitOf 16 c) :
    PrintsDotted expr date addr s ↔ ∀ k ∈ [0, 2, 4, 6], byteAt addr k ≠ 0 := by
  have hne : addr ≠ [] := by
    rintro rfl
    cases hlength
  obtain ⟨t, before, hout⟩ := tcParseIpv4Addr_eq expr date s hne
  have hpart : ∀ k ∈ [0, 2, 4, 6], if byteAt addr k = 0
      then ' ' ∈ partText expr date addr k (before k)
      else partText expr date addr k (before k) = printInt (byteAt addr k) := by
    intro k hk
    have hle : k ≤ 6 := List.forall_iff_forall_mem.mp (by decide : [0, 2, 4, 6].Forall (· ≤ 6)) k hk
    exact partText_eq expr date (by omega) haddr (before k)
  rw [PrintsDotted, hout]
  constructor
  · rintro ⟨t', heq⟩ k hk hzero
    have htext := List.append_cancel_right (congrArg Prod.snd (Except.ok.inj heq))
    have hspace : ' ' ∉ ['.'].intercalate ([0, 2, 4, 6].map fun k => printInt (byteAt addr k)) := by
      apply not_mem_intercalate (by decide)
      intro w hw
      obtain ⟨k, -, rfl⟩ := List.mem_map.mp hw
      exact not_mem_printInt (by decide) (by decide) _
    have hreport := hpart k hk
    rw [if_pos hzero] at hreport
    rw [← htext, mem_intercalate_iff (by decide)] at hspace
    exact hspace ⟨_, List.mem_map_of_mem hk, hreport⟩
  · intro hbytes
    have hmap : ([0, 2, 4, 6].map fun k => partText expr date addr k (before k)) =
        [0, 2, 4, 6].map fun k => printInt (byteAt addr k) := by
      apply List.map_congr_left
      intro k hk
      have hbyte := hpart k hk
      rwa [if_neg (hbytes k hk)] at hbyte
    rw [hmap]
    exact ⟨t, rfl⟩

/-- For a number in 64 bits, `tc_hex2dec` undoes `tc_dec2hex` exactly if the number is not zero and
`printf` takes the width. An address is printed exactly if none of its bytes is zero. -/
theorem conversions_invert_iff (expr : List Char → Option ℤ) (date : List Char) (s : State) :
    (∀ n digits case, -2 ^ 63 ≤ n → n < 2 ^ 63 → (∀ d ∈ digits, 1 ≤ d) → case ∈ cases →
      (RoundTrips expr n digits case s ↔ n ≠ 0 ∧ ∀ d ∈ digits, d ≤ intMax)) ∧
    ∀ addr : List Char, addr.length = 8 → (∀ c ∈ addr, isDigitOf 16 c) →
      (PrintsDotted expr date addr s ↔ ∀ k ∈ [0, 2, 4, 6], byteAt addr k ≠ 0) :=
  ⟨fun _ _ _ hmin hmax hdigits hc => roundTrips_iff hmin hmax hdigits hc,
    fun _ hlength haddr => printsDotted_iff hlength haddr⟩

theorem conversions_invert_minusOne :
    RoundTrips (fun _ => none) (-1) (some 4) [] calm ∧
      PrintsDotted (fun _ => none) "noon".toList "09981401".toList calm := by
  have hinvert := conversions_invert_iff (fun _ => none) "noon".toList calm
  constructor
  · refine (hinvert.1 (-1) (some 4) [] (by decide) (by decide) (by decide) (by decide)).mpr ?_
    decide
  · refine (hinvert.2 "09981401".toList (by decide) ?_).mpr (by decide +kernel)
    exact List.all_eq_true.mp (by decide +kernel)

/-- Zero ends the testcase, and the address 10.0.0.1 has two reports in it. -/
theorem zero_not_converted :
    ¬RoundTrips (fun _ => none) 0 none [] calm ∧
      ¬PrintsDotted (fun _ => none) "noon".toList "0A000001".toList calm := by
  constructor
  · rw [roundTrips_iff (by decide) (by decide) (by decide) (by decide)]
    decide
  · rw [printsDotted_iff (by decide) (List.all_eq_true.mp (by decide +kernel))]
    decide +kernel

end AutotestClient.Harness
