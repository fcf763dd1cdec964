import AutotestClient.Model.Harness.Ports
import AutotestClient.Verification.Harness.Numbers
import Mathlib.Order.Bounds.Defs

/-! # Which port is found

A port beyond 65535 has more than four hexadecimal digits, so that no row has it and it counts as
free. With `ipv6` the tables of ipv4 are not looked at. -/

namespace AutotestClient.Harness

open Shared Waiters

/-! ## Tables -/

/-- A number with at least so many digits, as the kernel writes it. -/
def hexField (width n : ℕ) : List Char :=
  ((Nat.toDigits 16 n).map Char.toUpper).leftpad width '0'

/-- A row of a table: the entry number and the blanks before it, both ends, the state, and what
comes after these. -/
structure Row where
  pad : ℕ
  slot : ℕ
  localAddr : List Char
  localPort : ℕ
  remAddr : List Char
  remPort : ℕ
  state : ℕ
  rest : List Char
  localHex : localAddr ≠ [] ∧ localAddr.all isHex
  remHex : remAddr ≠ [] ∧ remAddr.all isHex
  localPort_lt : localPort < 65536
  state_lt : state < 256

def Row.line (r : Row) : List Char :=
  List.replicate r.pad ' ' ++ Nat.toDigits 10 r.slot ++ ':' :: ' ' :: r.localAddr ++
    ':' :: hexField 4 r.localPort ++ ' ' :: r.remAddr ++ ':' :: hexField 4 r.remPort ++
    ' ' :: hexField 2 r.state ++ r.rest

/-- A table has a heading, which begins with `sl`. -/
structure Table where
  pad : ℕ
  heading : List Char
  rows : List Row

def Table.lines (t : Table) : List (List Char) :=
  (List.replicate t.pad ' ' ++ 's' :: 'l' :: t.heading) :: t.rows.map Row.line

/-- The port is listened to: a socket in the state 0A or 07. -/
def Row.Listens (p : ℕ) (r : Row) : Prop := r.localPort = p ∧ (r.state = 10 ∨ r.state = 7)

instance (p : ℕ) (r : Row) : Decidable (r.Listens p) := inferInstanceAs (Decidable (_ ∧ _))

variable {expr : List Char → Option ℤ} {date : List Char} {s : State} {n p width : ℕ} {r : Row}

/-- The tables, and whether there is an `if_inet6`. -/
structure Net where
  tcp : Table
  udp : Table
  tcp6 : Table
  udp6 : Table
  ifInet6 : Bool

def Net.tables (net : Net) : Tables :=
  ⟨net.tcp.lines, net.udp.lines, net.tcp6.lines, net.udp6.lines, net.ifInet6⟩

inductive Family where
  | unspecified | ipv4 | ipv6

def Family.arg : Family → String
  | unspecified => ""
  | ipv4 => "ipv4"
  | ipv6 => "ipv6"

/-- The rows that `tc_find_port` looks at. -/
def Net.searched (net : Net) : Family → List Row
  | .unspecified =>
      if net.ifInet6 then net.tcp.rows ++ net.tcp6.rows ++ net.udp.rows ++ net.udp6.rows
      else net.tcp.rows ++ net.udp.rows
  | .ipv4 => net.tcp.rows ++ net.udp.rows
  | .ipv6 => net.tcp6.rows ++ net.udp6.rows

/-- The rows that count by its description: `ipv6` implies ipv6 and/or ipv4. -/
def Net.documented (net : Net) : Family → List Row
  | .ipv6 => net.tcp.rows ++ net.tcp6.rows ++ net.udp.rows ++ net.udp6.rows
  | family => net.searched family

def Taken (rows : List Row) (p : ℕ) : Prop := ∃ r ∈ rows, r.Listens p

instance (rows : List Row) (p : ℕ) : Decidable (Taken rows p) :=
  inferInstanceAs (Decidable (∃ r ∈ rows, r.Listens p))

/-- The valid ports of the range that are free. -/
def Net.openPorts (net : Net) (family : Family) (start range : ℕ) : Set ℕ :=
  {p | start ≤ p ∧ p < start + range ∧ p ≤ 65535 ∧ ¬Taken (net.documented family) p}

/-- What `tc_find_port` is to return. -/
def FindsLeast (ports : Set ℕ) (result : Except State (Option (PortState × ℕ))) : Prop :=
  ∃ t status, result = .ok (some (t, status)) ∧
    ((∃ p, IsLeast ports p ∧ status = 0 ∧ t.tcPort = some (printInt p)) ∨
      (ports = ∅ ∧ status ≠ 0 ∧ t.tcPort = none))

/-! ## Digits -/

theorem digitsValue_hexField (width n : ℕ) : digitsValue 16 (hexField width n) = n := by
  have hdigits : ∀ d ∈ Nat.toDigits 16 n, isDigitOf 16 d := isDigitOf_toDigits (by decide) le_rfl
  rw [hexField, List.leftpad, digitsValue_zeros,
    digitsValue_map fun c hc => digitValue?_toUpper (hdigits c hc),
    digitsValue_toDigits (by decide) le_rfl]

theorem hexField_inj (h : hexField width n = hexField width p) : n = p := by
  rw [← digitsValue_hexField width n, h, digitsValue_hexField]

theorem isHex_hexField (width n : ℕ) : ∀ c ∈ hexField width n, isHex c := by
  rw [hexField, List.leftpad]
  intro c hc
  rcases List.mem_append.mp hc with hc | hc
  · rw [List.eq_of_mem_replicate hc]
    decide
  · obtain ⟨d, hd, rfl⟩ := List.mem_map.mp hc
    have hdigit : isDigitOf 16 d := isDigitOf_toDigits (by decide) le_rfl d hd
    apply forall_digit (P := fun c => isHex c.toUpper) _ hdigit
    decide +kernel

theorem hexField_ne_nil (width n : ℕ) : hexField width n ≠ [] := by
  simp [hexField, List.leftpad]

/-- What `tc_dec2hex` prints for a port. -/
theorem zeroPad_hexText (hp : p < 2 ^ 63) :
    zeroPad (some 4) [] (hexText 'X' p) = hexField 4 p := by
  have hword : ((p : ℤ) % 2 ^ 64).toNat = p := by omega
  have hwidth : ¬intMax < 4 := by decide
  rw [zeroPad, if_neg hwidth, hexText, hword, if_pos rfl, hexField, List.leftpad]
  simp

/-! ## Matches -/

theorem isDec_of_digit {c : Char} (hc : isDigitOf 10 c) : isDec c := by
  apply forall_digit (P := fun c => isDigitOf 10 c → isDec c) _ (isDigitOf_mono (by decide) hc) hc
  decide +kernel

/-- Blanks before a number do not count. -/
theorem fits_blanks (pad : ℕ) {text : List Char} (hne : text ≠ [])
    (htext : ∀ c ∈ text.head?, c ≠ ' ') (ps : List (Piece Char)) :
    fits (.star (· = ' ') :: .one isDec :: ps) (List.replicate pad ' ' ++ text) =
      fits (.one isDec :: ps) text := by
  have hblanks : ∀ x ∈ List.replicate pad ' ', decide (x = ' ') = true ∧ isDec x = false := by
    intro x hx
    rw [List.eq_of_mem_replicate hx]
    decide
  obtain ⟨c, text, rfl⟩ := List.exists_cons_of_ne_nil hne
  rw [fits_star_append hblanks (decide_eq_false (htext c rfl)), fits_one]

theorem state_listens (hst : n < 256) (rest : List Char) :
    fits [.lit '0', .one fun c => c = 'A' || c = '7'] (hexField 2 n ++ rest) = true ↔
      n = 10 ∨ n = 7 := by
  have hall : ∀ n < 256, (hexField 2 n).length = 2 ∧
      (fits [.lit '0', .one fun c => c = 'A' || c = '7'] (hexField 2 n) = true ↔
        n = 10 ∨ n = 7) := by decide +kernel
  obtain ⟨hlength, hfits⟩ := hall n hst
  obtain ⟨a, b, hab⟩ := List.length_eq_two.mp hlength
  rw [hab] at hfits ⊢
  exact hfits

theorem fits_row (p : ℕ) (r : Row) :
    fits (portPattern (hexField 4 p)) r.line = true ↔ r.Listens p := by
  have hslot : ∀ c ∈ Nat.toDigits 10 r.slot, isDec c :=
    fun c hc => isDec_of_digit (mem_toDigits c hc)
  have hspace (n : ℕ) : ' ' ∉ hexField 4 n := by
    intro hmem
    exact absurd (isHex_hexField 4 n ' ' hmem) (by decide)
  have hlocal := List.all_eq_true.mp r.localHex.2
  have hrem := List.all_eq_true.mp r.remHex.2
  have hdigits := @Nat.toDigits_ne_nil r.slot 10
  have hnext : fits (portPattern (hexField 4 p)) r.line = true ↔
      hexField 4 r.localPort = hexField 4 p ∧
        fits [.lit '0', .one fun c => c = 'A' || c = '7'] (hexField 2 r.state ++ r.rest) := by
    have hhead (rest : List Char) : ∀ c ∈ (Nat.toDigits 10 r.slot ++ rest).head?, c ≠ ' ' := by
      intro c hc
      rw [List.head?_append_of_ne_nil _ hdigits] at hc
      rintro rfl
      exact absurd (hslot ' ' (List.mem_of_mem_head? hc)) (by decide)
    simp only [portPattern, Row.line, List.append_assoc, List.cons_append, List.nil_append]
    rw [fits_blanks r.pad (List.append_ne_nil_of_left_ne_nil hdigits _) (hhead _),
      fits_field_append hdigits hslot (by decide), fits_lit, decide_eq_true rfl, Bool.true_and,
      fits_field_append r.localHex.1 hlocal (by decide), fits_word_append (hspace p) (hspace _),
      fits_field_append r.remHex.1 hrem (by decide),
      fits_field_append (hexField_ne_nil 4 _) (isHex_hexField 4 _) (by decide)]
    simp
  rw [hnext, state_listens r.state_lt, Row.Listens]
  refine and_congr_left fun _ => ⟨hexField_inj, ?_⟩
  rintro rfl
  rfl

/-- Nor does the heading match. -/
theorem fits_heading (hexPort : List Char) (pad : ℕ) (text : List Char) :
    fits (portPattern hexPort) (List.replicate pad ' ' ++ 's' :: text) = false := by
  simp only [portPattern, List.cons_append, List.nil_append]
  rw [fits_blanks pad (by simp) (by simp), fits_one]
  rfl

theorem grepPort_lines (t : Table) (p : ℕ) :
    grepPort (hexField 4 p) t.lines = true ↔ Taken t.rows p := by
  rw [grepPort, Table.lines, List.any_cons, fits_heading, Bool.false_or, List.any_map,
    List.any_eq_true, Taken]
  simp only [Function.comp_apply, fits_row]

theorem taken_append {rows rows' : List Row} :
    Taken (rows ++ rows') p ↔ Taken rows p ∨ Taken rows' p := by
  simp only [Taken, List.mem_append, or_and_right, exists_or]

theorem grepPort_append {lines lines' : List (List Char)} (p : List Char) :
    grepPort p (lines ++ lines') = (grepPort p lines || grepPort p lines') := by
  rw [grepPort, List.any_append]
  rfl

/-- The lines of `$listen`. -/
def Net.listen (net : Net) : Family → List (List Char)
  | .unspecified => net.tables.listen
  | .ipv4 => net.tables.tcp ++ net.tables.udp
  | .ipv6 => net.tables.tcp6 ++ net.tables.udp6

theorem grepPort_listen (net : Net) (family : Family) (p : ℕ) :
    grepPort (hexField 4 p) (net.listen family) = true ↔ Taken (net.searched family) p := by
  cases family with
  | unspecified =>
      rw [Net.listen, Tables.listen, Net.searched, Net.tables]
      split_ifs
      · simp only [grepPort_append, taken_append, Bool.or_eq_true, grepPort_lines]
      · simp only [grepPort_append, taken_append, Bool.or_eq_true, grepPort_lines]
  | ipv4 =>
      simp only [Net.listen, Net.searched, Net.tables, grepPort_append, taken_append,
        Bool.or_eq_true, grepPort_lines]
  | ipv6 =>
      simp only [Net.listen, Net.searched, Net.tables, grepPort_append, taken_append,
        Bool.or_eq_true, grepPort_lines]

theorem Taken.documented {net : Net} {family : Family} (h : Taken (net.searched family) p) :
    Taken (net.documented family) p := by
  cases family with
  | unspecified => exact h
  | ipv4 => exact h
  | ipv6 =>
      simp only [Net.searched, Net.documented, taken_append] at h ⊢
      tauto

theorem Taken.le {rows : List Row} (h : Taken rows p) : p ≤ 65535 := by
  obtain ⟨r, -, rfl, -⟩ := h
  exact Nat.le_of_lt_succ r.localPort_lt

/-! ## The search -/

variable (expr date)

/-- A round of the loop that is entered. -/
theorem searchPort_succ {endPort : ℤ} (hp : 0 < p) (hlt : p < 2 ^ 63) (hend : (p : ℤ) ≤ endPort)
    (lines : List (List Char)) (fuel : ℕ) (s : State) :
    searchPort expr date lines endPort (fuel + 1) s p =
      if grepPort (hexField 4 p) lines then
        searchPort expr date lines endPort fuel s (wrap (p + 1))
      else some (s, p) := by
  have hhex : substitute date (tcDec2hex expr (printInt p) (some 4) []) s = (s, hexField 4 p) := by
    rw [← zeroPad_hexText hlt]
    apply substitute_ok
    · intro t
      exact tcDec2hex_eq (by decide) (by omega) (by omega) (by omega) (by decide) t
    · rw [zeroPad_hexText hlt]
      intro hmem
      exact absurd (isHex_hexField 4 p _ hmem) (by decide)
  rw [searchPort, if_pos hend, hhex]

/-- The loop stops at the first port that is free or beyond the end. -/
theorem searchPort_spec {lines : List (List Char)} (endPort : ℤ)
    (hlines : ∀ p, grepPort (hexField 4 p) lines = true → p ≤ 65535) (fuel : ℕ) (hp : 0 < p)
    (hlt : p < 2 ^ 63) (hpos : 0 < fuel) (hfuel : 65537 ≤ p + fuel) :
    ∃ q : ℕ, p ≤ q ∧ (∀ s, searchPort expr date lines endPort fuel s p = some (s, (q : ℤ))) ∧
      (∀ r : ℕ, p ≤ r → r < q → (r : ℤ) ≤ endPort ∧ grepPort (hexField 4 r) lines = true) ∧
      (endPort < q ∨ grepPort (hexField 4 q) lines = false) := by
  induction fuel generalizing p with
  | zero => exact absurd hpos (lt_irrefl 0)
  | succ fuel ih =>
      by_cases hend : (p : ℤ) ≤ endPort
      · have hround (s : State) := searchPort_succ expr date hp hlt hend lines fuel s
        cases htaken : grepPort (hexField 4 p) lines with
        | false =>
            refine ⟨p, le_rfl, ?_, fun r hr hr' => absurd hr' (not_lt.mpr hr), .inr htaken⟩
            intro s
            rw [hround, htaken]
            rfl
        | true =>
            have hle := hlines p htaken
            have hnext : wrap ((p : ℤ) + 1) = ((p + 1 : ℕ) : ℤ) := by
              rw [Nat.cast_add, Nat.cast_one]
              exact wrap_eq (by omega) (by omega)
            obtain ⟨q, hq, hsearch, hbefore, hstop⟩ :=
              ih p.succ_pos (by omega) (by omega) (by omega)
            refine ⟨q, by omega, ?_, ?_, hstop⟩
            · intro s
              rw [hround, htaken, if_pos rfl, hnext, hsearch]
            · intro r hr hrq
              rcases hr.eq_or_lt with rfl | hr
              · exact ⟨hend, htaken⟩
              · exact hbefore r hr hrq
      · refine ⟨p, le_rfl, ?_, fun r hr hr' => absurd hr' (not_lt.mpr hr), .inl (not_le.mp hend)⟩
        intro s
        rw [searchPort, if_neg hend]

theorem tcFindPort_eq {start range : ℕ} (hstart : 0 < start) (hstart' : start < 2 ^ 63)
    (hrange : 0 < range) (hrange' : range < 2 ^ 63) (fuel : ℕ) (net : Net) (family : Family)
    (s : State) :
    tcFindPort expr date fuel net.tables (some start) (some range) family.arg s =
      .ok ((searchPort expr date (net.listen family) (wrap (start + range - 1)) fuel s start).map
        fun (s, port) => if port ≤ wrap (start + range - 1) then (⟨s, some (printInt port)⟩, 0)
          else (⟨s, none⟩, 1)) := by
  have hs : wrap (start : ℤ) = start := wrap_eq (by omega) (by omega)
  have hr : wrap (range : ℤ) = range := wrap_eq (by omega) (by omega)
  rw [tcFindPort]
  simp only [Option.getD_some, hs, hr]
  have hfamily : decide (family.arg ∈ ["", "ipv4", "ipv6"]) = true := by
    cases family with
    | unspecified => decide
    | ipv4 => decide
    | ipv6 => decide
  have hlisten : (if family.arg = "ipv4" then net.tables.tcp ++ net.tables.udp
      else if family.arg = "ipv6" then net.tables.tcp6 ++ net.tables.udp6
      else net.tables.listen) = net.listen family := by
    cases family with
    | unspecified => rfl
    | ipv4 => rfl
    | ipv6 => rfl
  rw [orExit_pass (by simpa using hstart)]
  dsimp only [bind, Except.bind]
  rw [orExit_pass (by simpa using hrange)]
  dsimp only
  rw [orExit_pass hfamily, hlisten]
  rfl

/-- The outcome of the search: the first port of the range that the rows leave free, if the end of
the range is a number of the shell. -/
theorem tcFindPort_cases {start range fuel : ℕ} (hstart : 0 < start) (hstart' : start < 2 ^ 63)
    (hrange : 0 < range) (hrange' : range < 2 ^ 63) (hfuel : 65536 ≤ fuel) (net : Net)
    (family : Family) :
    (∃ q, start ≤ q ∧ q < start + range ∧ start + range ≤ 2 ^ 63 ∧
      (∀ r, start ≤ r → r < q → Taken (net.searched family) r) ∧ ¬Taken (net.searched family) q ∧
      ∀ s, tcFindPort expr date fuel net.tables (some start) (some range) family.arg s =
        .ok (some (⟨s, some (printInt q)⟩, 0))) ∨
    ((start + range ≤ 2 ^ 63 → ∀ r, start ≤ r → r < start + range → Taken (net.searched family) r) ∧
      ∀ s, tcFindPort expr date fuel net.tables (some start) (some range) family.arg s =
        .ok (some (⟨s, none⟩, 1))) := by
  have hlines : ∀ p, grepPort (hexField 4 p) (net.listen family) = true → p ≤ 65535 :=
    fun p h => ((grepPort_listen net family p).mp h).le
  obtain ⟨q, hq, hsearch, hbefore, hstop⟩ := searchPort_spec expr date
    (wrap (start + range - 1)) hlines fuel hstart hstart' (by omega) (by omega)
  have hfind (s : State) := tcFindPort_eq expr date hstart hstart' hrange hrange' fuel net
    family s
  simp only [hsearch, Option.map_some] at hfind
  by_cases hsum : start + range ≤ 2 ^ 63
  · have hend : wrap ((start : ℤ) + range - 1) = start + range - 1 := wrap_eq (by omega) (by omega)
    rw [hend] at hbefore hstop hfind
    by_cases hle : (q : ℤ) ≤ start + range - 1
    · refine .inl ⟨q, hq, by omega, hsum, ?_, ?_, ?_⟩
      · exact fun r hr hrq => (grepPort_listen net family r).mp (hbefore r hr hrq).2
      · rw [← grepPort_listen, Bool.not_eq_true]
        exact hstop.resolve_left (not_lt.mpr hle)
      · simpa only [hle, if_true] using hfind
    · refine .inr ⟨fun _ r hr hlt => ?_, by simpa only [hle, if_false] using hfind⟩
      exact (grepPort_listen net family r).mp (hbefore r hr (by omega)).2
  · have hend : wrap ((start : ℤ) + range - 1) < 0 := by
      rw [wrap, Int.bmod]
      split_ifs
      · omega
      · omega
    refine .inr ⟨fun h => absurd h hsum, ?_⟩
    have hle : ¬(q : ℤ) ≤ wrap (start + range - 1) := by omega
    simpa only [hle, if_false] using hfind

/-! ## The port found -/

theorem printInt_inj {m n : ℕ} (h : printInt m = printInt n) : m = n := by
  rw [printInt_natCast, printInt_natCast] at h
  rw [← digitsValue_toDigits (by decide : 1 < 10) (by decide) m, h,
    digitsValue_toDigits (by decide) (by decide)]

/-- If the range ends at a number of the shell, its first port without a listener in the rows
searched is valid and has none in the rows documented. If not, no valid port from the start on is
free. -/
def Net.Agrees (net : Net) (family : Family) (start range : ℕ) : Prop :=
  if start + range ≤ 2 ^ 63 then
    ∀ p, start ≤ p → p < start + range →
      (∀ r, start ≤ r → r < p → Taken (net.searched family) r) → ¬Taken (net.searched family) p →
        p ≤ 65535 ∧ ¬Taken (net.documented family) p
  else ∀ p, start ≤ p → p ≤ 65535 → Taken (net.documented family) p

variable {start range fuel : ℕ} {net : Net} {family : Family}

/-- The first port that is free in the rows searched is the right one if it is open. -/
theorem isLeast_openPorts_iff {q : ℕ} (hq : start ≤ q) (hlt : q < start + range)
    (hbefore : ∀ r, start ≤ r → r < q → Taken (net.searched family) r) :
    IsLeast (net.openPorts family start range) q ↔
      q ≤ 65535 ∧ ¬Taken (net.documented family) q := by
  constructor
  · intro h
    exact h.1.2.2
  · intro h
    refine ⟨⟨hq, hlt, h⟩, ?_⟩
    intro p hp
    by_contra hpq
    exact hp.2.2.2 (hbefore p hp.1 (not_le.mp hpq)).documented

theorem findsLeast_found_iff {ports : Set ℕ} {q : ℕ} :
    FindsLeast ports (.ok (some (⟨s, some (printInt q)⟩, 0))) ↔ IsLeast ports q := by
  constructor
  · rintro ⟨t, status, heq, h⟩
    obtain ⟨rfl, rfl⟩ := Prod.mk.inj (Option.some.inj (Except.ok.inj heq))
    rcases h with ⟨p, hleast, -, hport⟩ | ⟨-, hstatus, -⟩
    · rw [printInt_inj (Option.some.inj hport)]
      exact hleast
    · exact absurd rfl hstatus
  · intro h
    exact ⟨_, _, rfl, .inl ⟨q, h, rfl, rfl⟩⟩

theorem findsLeast_none_iff {ports : Set ℕ} :
    FindsLeast ports (.ok (some (⟨s, none⟩, 1))) ↔ ports = ∅ := by
  constructor
  · rintro ⟨t, status, heq, h⟩
    obtain ⟨rfl, rfl⟩ := Prod.mk.inj (Option.some.inj (Except.ok.inj heq))
    rcases h with ⟨p, -, hstatus, -⟩ | ⟨hempty, -⟩
    · cases hstatus
    · exact hempty
  · intro h
    exact ⟨_, _, rfl, .inr ⟨h, one_ne_zero, rfl⟩⟩

theorem findsLeast_iff (hstart : 0 < start) (hstart' : start < 2 ^ 63) (hrange : 0 < range)
    (hrange' : range < 2 ^ 63) (hfuel : 65536 ≤ fuel) (s : State) :
    FindsLeast (net.openPorts family start range)
        (tcFindPort expr date fuel net.tables (some start) (some range) family.arg s) ↔
      net.Agrees family start range := by
  rcases tcFindPort_cases expr date hstart hstart' hrange hrange' hfuel net family with
    ⟨q, hq, hlt, hsum, hbefore, hfree, hfind⟩ | ⟨htaken, hfind⟩
  · rw [hfind, findsLeast_found_iff, isLeast_openPorts_iff hq hlt hbefore, Net.Agrees, if_pos hsum]
    constructor
    · intro h p hp hlt' hbefore' hfree'
      -- both are the first port that is free
      have hpq : p = q := by
        rcases lt_trichotomy p q with hpq | hpq | hpq
        · exact absurd (hbefore p hp hpq) hfree'
        · exact hpq
        · exact absurd (hbefore' q hq hpq) hfree
      rw [hpq]
      exact h
    · intro h
      exact h q hq hlt hbefore hfree
  · rw [hfind, findsLeast_none_iff, Set.eq_empty_iff_forall_notMem, Net.Agrees]
    split_ifs with hsum
    · refine iff_of_true ?_ ?_
      · intro p hp
        exact hp.2.2.2 (htaken hsum p hp.1 hp.2.1).documented
      · intro p hp hlt _ hfree
        exact absurd (htaken hsum p hp hlt) hfree
    · constructor
      · intro h p hp hle
        by_contra hfree
        exact h p ⟨hp, by omega, hle, hfree⟩
      · intro h p hp
        exact hp.2.2.2 (h p hp.1 hp.2.2.1)

/-! ## Waiting for a port -/

/-- `tc_find_port` is a test as the waiting functions have it. -/
theorem tcFindPort_findPort {port : ℕ} (hport : 0 < port) (hport' : port < 2 ^ 63)
    (hfuel : 65536 ≤ fuel) (nets : ℕ → Net) (family : Family) :
    ∃ find, ∀ i t,
      tcFindPort expr date fuel (nets i).tables (some port) (some 1) family.arg t.base =
        .ok (some ((findPort find i t).1, if (findPort find i t).2 then 0 else 1)) := by
  have hfound (i : ℕ) : ∃ found : Option (List Char), ∀ s,
      tcFindPort expr date fuel (nets i).tables (some port) (some 1) family.arg s =
        .ok (some (⟨s, found⟩, if found.isSome then 0 else 1)) := by
    rcases tcFindPort_cases expr date hport hport' one_pos (by decide) hfuel (nets i) family with
      ⟨q, -, -, -, -, -, hfind⟩ | ⟨-, hfind⟩
    · exact ⟨some (printInt q), hfind⟩
    · exact ⟨none, hfind⟩
  choose find hfind using hfound
  exact ⟨find, fun i t => hfind i t.base⟩

theorem checkMax_none (funcname : String) :
    checkMax funcname none = checkMax funcname (some (10 : ℕ)) := by
  funext s
  rw [checkMax_pos (by decide)]
  rfl

/-- The functions that wait for a port leave the value of `TC_PORT` as it was. -/
theorem waiters_restore {port : ℤ} (hport : 0 < port) {max : Option ℤ} (hmax : ∀ m ∈ max, 0 < m)
    (find : ℕ → Option (List Char)) (t : PortState) :
    (∃ w v, tcWaitForActivePort port max find t = .ok (w, v) ∧ v.getD [] = t.tcPort.getD []) ∧
      ∃ w v, tcWaitForInactivePort port max find t = .ok (w, v) ∧
        v.getD [] = t.tcPort.getD [] := by
  have hsome (n : ℕ) (hn : 0 < n) :
      (∃ w v, tcWaitForActivePort port (some n) find t = .ok (w, v) ∧
        v.getD [] = t.tcPort.getD []) ∧
      ∃ w v, tcWaitForInactivePort port (some n) find t = .ok (w, v) ∧
        v.getD [] = t.tcPort.getD [] := by
    obtain ⟨w, hw, -⟩ := @follows_tcWaitForActivePort n port find hn hport t
    obtain ⟨w', hw', -⟩ := @follows_tcWaitForInactivePort n port find hn hport t
    exact ⟨⟨w, _, hw, rfl⟩, w', _, hw', rfl⟩
  cases max with
  | none =>
      rw [tcWaitForActivePort, tcWaitForInactivePort, checkMax_none, checkMax_none]
      exact hsome 10 (by decide)
  | some m =>
      obtain ⟨n, rfl⟩ := Int.eq_ofNat_of_zero_le (hmax m rfl).le
      exact hsome n (by simpa using hmax n rfl)

/-- `tc_find_port` finds the least port exactly if the tables agree, and the functions that call it
to wait for a port leave the value of `TC_PORT` as it was. -/
theorem tcFindPort_least_iff (expr : List Char → Option ℤ) (date : List Char) (family : Family)
    (fuel : ℕ) (hfuel : 65536 ≤ fuel) :
    (∀ (net : Net) (start range : ℕ) (s : State),
      0 < start → start < 2 ^ 63 → 0 < range → range < 2 ^ 63 →
      (FindsLeast (net.openPorts family start range)
          (tcFindPort expr date fuel net.tables (some start) (some range) family.arg s) ↔
        net.Agrees family start range)) ∧
    ∀ (port : ℕ) (max : Option ℤ) (nets : ℕ → Net) (t : PortState), 0 < port → port < 2 ^ 63 →
      (∀ m ∈ max, 0 < m) → ∃ find,
        (∀ i t, tcFindPort expr date fuel (nets i).tables (some port) (some 1) family.arg t.base =
          .ok (some ((findPort find i t).1, if (findPort find i t).2 then 0 else 1))) ∧
        (∃ w v, tcWaitForActivePort port max find t = .ok (w, v) ∧
          v.getD [] = t.tcPort.getD []) ∧
        ∃ w v, tcWaitForInactivePort port max find t = .ok (w, v) ∧
          v.getD [] = t.tcPort.getD [] := by
  refine ⟨fun _ _ _ s hstart hstart' hrange hrange' =>
    findsLeast_iff expr date hstart hstart' hrange hrange' hfuel s, ?_⟩
  intro port max nets t hport hport' hmax
  obtain ⟨find, hfind⟩ := tcFindPort_findPort expr date hport hport' hfuel nets family
  exact ⟨find, hfind, waiters_restore (by omega) hmax find t⟩

/-! ## A server -/

/-- A row for a socket of ipv4 that accepts connections from everywhere. -/
def acceptsAt (port : ℕ) (hport : port < 65536) : Row where
  pad := 3
  slot := 0
  localAddr := List.replicate 8 '0'
  localPort := port
  remAddr := List.replicate 8 '0'
  remPort := 0
  state := 10
  rest := " 00000000:00000000".toList
  localHex := by decide
  remHex := by decide
  localPort_lt := hport
  state_lt := by decide

/-- A server on port 22 that uses ipv4. -/
def server : Net :=
  ⟨⟨2, [], [acceptsAt 22 (by decide)]⟩, ⟨2, [], []⟩, ⟨2, [], []⟩, ⟨2, [], []⟩, true⟩

theorem tcFindPort_least_server :
    FindsLeast (server.openPorts .unspecified 22 2)
        (tcFindPort (fun _ => none) "noon".toList 65536 server.tables (some 22) (some 2) "" calm) ∧
      ∃ find, ∃ w v, tcWaitForActivePort 22 none find ⟨calm, some "80".toList⟩ = .ok (w, v) ∧
        v.getD [] = "80".toList := by
  have hleast := tcFindPort_least_iff (fun _ => none) "noon".toList .unspecified 65536 le_rfl
  constructor
  · refine (hleast.1 server 22 2 calm (by decide) (by decide) (by decide) (by decide)).mpr ?_
    rw [Net.Agrees, if_pos (by decide)]
    intro p hp hlt _ hfree
    have hcases : p = 22 ∨ p = 23 := by omega
    rcases hcases with rfl | rfl
    · exact absurd (by decide +kernel) hfree
    · decide +kernel
  · obtain ⟨find, -, hwait, -⟩ := hleast.2 22 none (fun _ => server) ⟨calm, some "80".toList⟩
      (by decide) (by decide) (by simp)
    exact ⟨find, hwait⟩

/-- With `ipv6` the port of the server counts as free, and so does port 65536. -/
theorem tcFindPort_least_fails :
    ¬FindsLeast (server.openPorts .ipv6 22 1)
        (tcFindPort (fun _ => none) "noon".toList 65536 server.tables (some 22) (some 1) "ipv6"
          calm) ∧
      ¬FindsLeast (server.openPorts .ipv4 65536 1)
        (tcFindPort (fun _ => none) "noon".toList 65536 server.tables (some 65536) (some 1) "ipv4"
          calm) := by
  constructor
  · intro h
    have hagrees := (findsLeast_iff _ _ (by decide) (by decide) (by decide) (by decide) le_rfl
      calm).mp h
    rw [Net.Agrees, if_pos (by decide)] at hagrees
    have hopen := hagrees 22 le_rfl (by decide) (by omega) (by decide +kernel)
    exact hopen.2 (by decide +kernel)
  · intro h
    have hagrees := (findsLeast_iff _ _ (by decide) (by decide) (by decide) (by decide) le_rfl
      calm).mp h
    rw [Net.Agrees, if_pos (by decide)] at hagrees
    have hopen := hagrees 65536 le_rfl (by decide) (by omega) (by decide +kernel)
    exact absurd hopen.1 (by decide)

end AutotestClient.Harness
