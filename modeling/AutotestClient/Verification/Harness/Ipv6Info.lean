import AutotestClient.Model.Harness.Ipv6Info
import AutotestClient.Verification.Harness.Arrays
import AutotestClient.Verification.Harness.Numbers

/-! # The tables of IPv6 addresses

The pushes of a line keep the arrays in step if its values come through all expansions. Digits,
colons and names of scopes do; the name of an interface may not. -/

namespace AutotestClient.Harness

open Shared

/-! ## Lines of `if_inet6` -/

/-- A line of `/proc/net/if_inet6`. -/
structure Entry where
  addr : List Char
  index : List Char
  plen : List Char
  scope : Scope
  scopeRest : List Char
  flags : List Char
  pad : ℕ
  iface : List Char
  addr_digits : addr.length = 32 ∧ ∀ c ∈ addr, isDigitOf 16 c
  index_digits : index ≠ [] ∧ ∀ c ∈ index, isDigitOf 16 c
  plen_digits : plen ≠ [] ∧ ∀ c ∈ plen, isDigitOf 16 c
  plen_range : 1 ≤ digitsValue 16 plen ∧ digitsValue 16 plen ≤ 128
  scopeRest_digits : ∀ c ∈ scopeRest, isDigitOf 16 c
  flags_digits : flags ≠ [] ∧ ∀ c ∈ flags, isDigitOf 16 c
  iface_word : iface ≠ [] ∧ ∀ c ∈ iface, isBlank c = false

/-- The nibble of a scope. -/
def Scope.nibble : Scope → Char
  | global => '0'
  | host => '1'
  | link => '2'
  | site => '4'
  | compat => '8'

namespace Entry

def line (e : Entry) : List Char :=
  e.addr ++ ' ' :: (e.index ++ ' ' :: (e.plen ++ ' ' :: (e.scope.nibble :: e.scopeRest ++ ' ' ::
    (e.flags ++ ' ' :: (List.replicate e.pad ' ' ++ e.iface)))))

/-- The text of the file. -/
def file (entries : List Entry) : List Char := entries.flatMap fun e => e.line ++ ['\n']

/-- Four digits at a time. -/
def colonForm (addr : List Char) : List Char :=
  [':'].intercalate ((List.range 8).map fun k => (addr.drop (4 * k)).take 4)

def value (e : Entry) : Column → List Char
  | .addrs => colonForm e.addr
  | .masks => printInt (digitsValue 16 e.plen)
  | .ifaces => e.iface

/-- What an array is to hold of a line. -/
def cell (e : Entry) : Ipv6Array → Option (List Char)
  | .all column => some (e.value column)
  | .scopes => some e.scope.text
  | .ofScope scope column => if e.scope = scope then some (e.value column) else none

end Entry

/-- The arrays hold the columns of all lines and of the lines of each scope, without gaps, and the
status is 0 if there is a line. -/
def BuildsTables (entries : List Entry) (result : Option (Ipv6Arrays × State × ℕ)) : Prop :=
  ∃ arrays s status, result = some (arrays, s, status) ∧
    (∀ id, (arrays id).entries = (entries.filterMap (Entry.cell · id)).zipIdx) ∧
    (status = 0 ↔ entries ≠ [])

/-! ## Words that come through -/

variable {sh : Shell} {reader : Reader} {expr : List Char → Option ℤ} {date w v : List Char}
  {s : State} {e : Entry} {entries : List Entry} {id : Ipv6Array}
  {tables : Ipv6Array → List (List Char)}

/-- A word that is the same after each expansion, and when it is read again. -/
structure Untouched (sh : Shell) (reader : Reader) (w : List Char) : Prop extends OneWord sh w where
  special : ∀ c ∈ w, isSpecial c = false
  dollar : w.IsChain fun c d => ¬(c = '$' ∧ startsExpansion d)
  comment : w.head? ≠ some '#'
  expand : reader.expand w = [w]

def isPlain (c : Char) : Bool := c.isAlphanum || c = ':'

/-- Words of letters, digits and colons stand for themselves. -/
structure Regular (sh : Shell) (reader : Reader) : Prop where
  glob : ∀ w : List Char, w.all isPlain → sh.glob w = [w]
  expand : ∀ w : List Char, w.all isPlain → reader.expand w = [w]

theorem isPlain_of_digit {c : Char} (hc : isDigitOf 16 c) : isPlain c := by
  apply forall_digit (P := fun c => isPlain c) _ hc
  decide +kernel

theorem ne_of_plain {c d : Char} (hc : isPlain c) (hd : isPlain d = false) : c ≠ d := by
  rintro rfl
  rw [hc] at hd
  cases hd

theorem not_blank_of_plain {c : Char} (hc : isPlain c) : isBlank c = false := by
  have hne := fun d hd => ne_of_plain (d := d) hc hd
  simp [isBlank, hne ' ' (by decide), hne '\t' (by decide), hne '\n' (by decide)]

theorem not_special_of_plain {c : Char} (hc : isPlain c) : isSpecial c = false := by
  have hnone : "|&;()<>`\\\"'".toList.all (fun d => !isPlain d) := by decide +kernel
  by_contra hspecial
  rw [Bool.not_eq_false, isSpecial, decide_eq_true_eq] at hspecial
  have hplain := List.all_eq_true.mp hnone c hspecial
  rw [hc] at hplain
  cases hplain

theorem Regular.untouched (h : Regular sh reader) (hne : w ≠ []) (hw : w.all isPlain) :
    Untouched sh reader w := by
  have hplain := List.all_eq_true.mp hw
  refine ⟨⟨hne, fun c hc => not_blank_of_plain (hplain c hc), h.glob w hw⟩,
    fun c hc => not_special_of_plain (hplain c hc), ?_, ?_, h.expand w hw⟩
  · apply List.Pairwise.isChain
    apply List.pairwise_of_forall_mem_list
    rintro c hc d - ⟨rfl, -⟩
    exact ne_of_plain (hplain _ hc) (by decide) rfl
  · intro hhead
    exact ne_of_plain (hplain _ (List.mem_of_mem_head? hhead)) (by decide) rfl

/-! ## Pushes -/

theorem Untouched.literal (h : Untouched sh reader w) : Literal w := by
  have hnot {c : Char} (hc : isSpecial c) : c ∉ w := by
    intro hmem
    rw [h.special c hmem] at hc
    cases hc
  have hslash : '\\' ∉ w := hnot (by decide)
  refine ⟨hnot (by decide), hnot (by decide), ?_⟩
  refine List.isChain_append.mpr ⟨?_, List.isChain_singleton _, ?_⟩
  · apply h.dollar.imp_of_mem_imp
    intro c d hc _ hdollar
    refine ⟨?_, hdollar⟩
    rintro ⟨rfl, -⟩
    exact hslash hc
  · intro c hc d hd
    obtain rfl : '"' = d := by simpa using hd
    constructor
    · rintro ⟨rfl, -⟩
      exact hslash (List.mem_of_mem_getLast? hc)
    · rintro ⟨-, hstarts⟩
      exact absurd hstarts (by decide)

/-- Neither command of a push names files. -/
structure Assigns (sh : Shell) (id : Ipv6Array) (w : List Char) : Prop where
  size : Kept sh (sizeWord id.name)
  value : Kept sh (pushTarget id.name ++ w ++ ['"'])

theorem Untouched.storable (h : Untouched sh reader w) (hid : Assigns sh id w) :
    Storable sh id.name w := by
  have hblank : ∀ c ∈ pushTarget id.name ++ w ++ ['"'], isBlank c = false := by
    simp only [List.forall_mem_append]
    exact ⟨⟨not_blank_pushTarget id.name, h.blank⟩, List.forall_mem_singleton.mpr rfl⟩
  refine ⟨h.literal, ?_, ?_, ?_⟩
  · intro c hc hblank
    rw [h.blank c hc] at hblank
    cases hblank
  · apply List.Pairwise.isChain
    apply List.pairwise_of_forall_mem_list
    rintro c hc d - ⟨hblank, -⟩
    rw [h.blank c hc] at hblank
    cases hblank
  · rw [words_of_forall (by simp) hblank, List.forall_mem_singleton]
    exact hid.value

/-- The arrays without gaps that hold these values. -/
def arraysOf (tables : Ipv6Array → List (List Char)) : Ipv6Arrays :=
  fun id => .ofWords (tables id)

/-- The tables with one more value. -/
def extend (id : Ipv6Array) (v : List Char) (tables : Ipv6Array → List (List Char)) :
    Ipv6Array → List (List Char) :=
  Function.update tables id (tables id ++ [v])

theorem pushTo_arraysOf (h : Untouched sh reader w) (hid : Assigns sh id w) :
    pushTo sh id w (arraysOf tables) = some (arraysOf (extend id w tables)) := by
  have hupdate : Function.update (arraysOf tables) id (.ofWords (tables id ++ [w])) =
      arraysOf (extend id w tables) := by
    funext id'
    by_cases heq : id' = id
    · subst heq
      simp [arraysOf, extend]
    · simp [arraysOf, extend, heq]
  have hpush : tcArrayPush sh id.name w (arraysOf tables id) =
      some (.ofWords (tables id ++ [w])) := by
    rw [arraysOf, (h.storable hid).push_eq hid.size h.nonempty, size_ofWords, set_ofWords]
  rw [pushTo, hpush, Option.map_some, hupdate]

theorem pushWord_arraysOf (h : Untouched sh reader w) (hid : Assigns sh id w) :
    pushWord sh id w (arraysOf tables) = some (arraysOf (extend id w tables)) := by
  rw [pushWord, h.toOneWord.split_eq, List.headD_cons, pushTo_arraysOf h hid]

theorem evalPush_arraysOf (h : Untouched sh reader w) (hid : Assigns sh id w) :
    evalPush sh reader id w (arraysOf tables) = some (arraysOf (extend id w tables)) := by
  have htext : sh.evalText w = w := by
    rw [Shell.evalText, h.toOneWord.split_eq, List.intercalate_singleton]
  have hwords : words isBlank w = [w] := words_of_forall h.nonempty h.blank
  have hreads : readsAsWords w = true := by
    have hspecial : w.any isSpecial = false := by
      rw [List.any_eq_false]
      intro c hc
      rw [h.special c hc]
      exact Bool.false_ne_true
    rw [readsAsWords, hspecial, decide_eq_true h.dollar, hwords]
    simpa using h.comment
  rw [evalPush]
  simp only [htext, hreads, if_true, hwords, List.flatMap_singleton, h.expand, List.headD_cons]
  exact pushTo_arraysOf h hid

/-! ## Values -/

/-- The line comes through: its interface does, and no command names files. -/
structure Entry.Intact (sh : Shell) (reader : Reader) (e : Entry) : Prop where
  iface : Untouched sh reader e.iface
  assigns : ∀ id, ∀ v ∈ e.cell id, Assigns sh id v

theorem plain_colonForm (haddr : ∀ c ∈ w, isDigitOf 16 c) : (Entry.colonForm w).all isPlain := by
  rw [List.all_eq_true]
  intro c hc
  by_contra hplain
  refine not_mem_intercalate ?_ ?_ hc
  · rintro rfl
    exact hplain (by decide)
  · intro part hpart hmem
    obtain ⟨k, -, rfl⟩ := List.mem_map.mp hpart
    have hdigit := haddr c (List.mem_of_mem_drop (List.mem_of_mem_take hmem))
    exact hplain (isPlain_of_digit hdigit)

/-- The colon form is what `tc_parse_ipv6_addr` prints. -/
theorem tcParseIpv6Addr_colonForm (hne : w ≠ []) :
    tcParseIpv6Addr w = some (Entry.colonForm w) := by
  have hrange : List.range 8 = [0, 1, 2, 3, 4, 5, 6, 7] := rfl
  rw [tcParseIpv6Addr, if_neg hne, Entry.colonForm, hrange]
  simp only [List.map_cons, List.map_nil, List.intercalate_cons_cons, List.intercalate_singleton,
    List.append_assoc, List.cons_append, List.nil_append]

theorem colonForm_ne_nil (w : List Char) : Entry.colonForm w ≠ [] := by
  have hrange : List.range 8 = [0, 1, 2, 3, 4, 5, 6, 7] := rfl
  rw [Entry.colonForm, hrange, List.map_cons, List.map_cons, List.intercalate_cons_cons]
  simp

theorem Entry.untouched_value (hreg : Regular sh reader) (he : e.Intact sh reader)
    (column : Column) : Untouched sh reader (e.value column) := by
  cases column with
  | addrs =>
      exact hreg.untouched (colonForm_ne_nil e.addr) (plain_colonForm e.addr_digits.2)
  | masks =>
      apply hreg.untouched (printInt_ne_nil _)
      rw [List.all_eq_true, printInt_natCast]
      intro c hc
      exact isPlain_of_digit (isDigitOf_mono (by decide) (mem_toDigits c hc))
  | ifaces => exact he.iface

theorem Scope.untouched_text (hreg : Regular sh reader) (scope : Scope) :
    Untouched sh reader scope.text := by
  cases scope with
  | global => exact hreg.untouched (by decide) (by decide)
  | host => exact hreg.untouched (by decide) (by decide)
  | link => exact hreg.untouched (by decide) (by decide)
  | site => exact hreg.untouched (by decide) (by decide)
  | compat => exact hreg.untouched (by decide) (by decide)

/-- The seven pushes of a line extend exactly the arrays it belongs to. -/
theorem pushLine_arraysOf (hreg : Regular sh reader) (he : e.Intact sh reader) :
    pushLine sh reader e.scope (e.value .addrs) (e.value .masks) (e.value .ifaces)
        (arraysOf tables) =
      some (arraysOf fun id => tables id ++ (e.cell id).toList) := by
  have hvalue := Entry.untouched_value hreg he
  have hall (column : Column) (tables : Ipv6Array → List (List Char)) :
      pushWord sh (.all column) (e.value column) (arraysOf tables) =
        some (arraysOf (extend (.all column) (e.value column) tables)) :=
    pushWord_arraysOf (hvalue column) (he.assigns (.all column) _ rfl)
  have hscope (tables : Ipv6Array → List (List Char)) :
      pushWord sh .scopes e.scope.text (arraysOf tables) =
        some (arraysOf (extend .scopes e.scope.text tables)) :=
    pushWord_arraysOf (e.scope.untouched_text hreg) (he.assigns .scopes _ rfl)
  have hof (column : Column) (tables : Ipv6Array → List (List Char)) :
      evalPush sh reader (.ofScope e.scope column) (e.value column) (arraysOf tables) =
        some (arraysOf (extend (.ofScope e.scope column) (e.value column) tables)) :=
    evalPush_arraysOf (hvalue column)
      (he.assigns (.ofScope e.scope column) _ (by simp [Entry.cell]))
  simp only [pushLine, hall, hscope, hof, Option.bind_eq_bind, Option.bind_some]
  congr 2
  funext id
  cases id with
  | all column => cases column <;> simp [extend, Entry.cell]
  | scopes => simp [extend, Entry.cell]
  | ofScope scope column =>
      by_cases hsame : e.scope = scope
      · subst hsame
        cases column <;> simp [extend, Entry.cell]
      · have hne (c : Column) : Ipv6Array.ofScope scope column ≠ .ofScope e.scope c := by
          rintro ⟨⟩
          exact hsame rfl
        simp [extend, Entry.cell, hsame, hne]

/-! ## Reading -/

/-- A line without backslashes is read as it is. -/
theorem readLines_append {line : List (Char × Bool)} {text : List Char} (hslash : '\\' ∉ w)
    (hline : '\n' ∉ w) :
    readLines line (w ++ '\n' :: text) = (line ++ w.map (·, false)) :: readLines [] text := by
  induction w generalizing line with
  | nil =>
      rw [List.nil_append, List.map_nil, List.append_nil]
      rfl
  | cons c w ih =>
      rw [List.mem_cons, not_or] at hslash hline
      rw [List.cons_append, readLines, ih hslash.2 hline.2, List.append_assoc]
      · rfl
      · exact Ne.symm hline.1
      · rintro text' rfl
        exact absurd rfl hslash.1
      · rintro c' text' rfl
        exact absurd rfl hslash.1

theorem not_mem_of_digits {c : Char} (hw : ∀ d ∈ w, isDigitOf 16 d) (hc : isPlain c = false) :
    c ∉ w := by
  intro hmem
  rw [isPlain_of_digit (hw c hmem)] at hc
  cases hc

theorem Scope.digit_nibble (scope : Scope) : isDigitOf 16 scope.nibble := by
  cases scope <;> decide

theorem Entry.not_mem_line {c : Char} (hc : isPlain c = false) (hspace : c ≠ ' ')
    (hiface : c ∉ e.iface) : c ∉ e.line := by
  have hnibble : c ≠ e.scope.nibble :=
    Ne.symm (ne_of_plain (isPlain_of_digit e.scope.digit_nibble) hc)
  simp [Entry.line, not_mem_of_digits e.addr_digits.2 hc, not_mem_of_digits e.index_digits.2 hc,
    not_mem_of_digits e.plen_digits.2 hc, not_mem_of_digits e.scopeRest_digits hc,
    not_mem_of_digits e.flags_digits.2 hc, hspace, hiface, hnibble]

theorem readLines_file (h : ∀ e ∈ entries, '\\' ∉ e.iface) :
    readLines [] (Entry.file entries) = entries.map fun e => e.line.map (·, false) := by
  induction entries with
  | nil => rfl
  | cons e entries ih =>
      rw [List.forall_mem_cons] at h
      have hline : '\n' ∉ e.iface := by
        intro hmem
        exact absurd (e.iface_word.2 _ hmem) (by decide)
      rw [Entry.file, List.flatMap_cons, ← Entry.file, List.append_assoc, List.singleton_append,
        readLines_append (Entry.not_mem_line (by decide) (by decide) h.1)
          (Entry.not_mem_line (by decide) (by decide) hline), ih h.2, List.map_cons]
      rfl

theorem not_blank_digits (hw : ∀ c ∈ w, isDigitOf 16 c) : ∀ c ∈ w, isBlank c = false :=
  fun c hc => not_blank_of_plain (isPlain_of_digit (hw c hc))

theorem lineFields_line (e : Entry) :
    lineFields (e.line.map (·, false)) =
      [e.addr, e.index, e.plen, e.scope.nibble :: e.scopeRest, e.flags, e.iface] := by
  have haddr : e.addr ≠ [] := by
    intro hnil
    simpa [hnil] using e.addr_digits.1
  have hscope : ∀ c ∈ e.scope.nibble :: e.scopeRest, isDigitOf 16 c :=
    List.forall_mem_cons.mpr ⟨e.scope.digit_nibble, e.scopeRest_digits⟩
  have hgap : ∀ c ∈ ' ' :: List.replicate e.pad ' ', isBlank c := by
    intro c hc
    rw [← List.replicate_succ] at hc
    rw [List.eq_of_mem_replicate hc]
    decide
  have hfields : readFields isBlank 5 e.line =
      [e.addr, e.index, e.plen, e.scope.nibble :: e.scopeRest, e.flags, e.iface] := by
    have hspace : isBlank ' ' = true := by decide
    have hlast := readFields_zero hgap e.iface_word.2
    rw [Entry.line,
      readFields_first haddr (not_blank_digits e.addr_digits.2) (by simpa using hspace),
      readFields_next hspace e.index_digits.1 (not_blank_digits e.index_digits.2)
        (by simpa using hspace),
      readFields_next hspace e.plen_digits.1 (not_blank_digits e.plen_digits.2)
        (by simpa using hspace),
      readFields_next hspace (List.cons_ne_nil _ _) (not_blank_digits hscope)
        (by simpa using hspace),
      readFields_next hspace e.flags_digits.1 (not_blank_digits e.flags_digits.2)
        (by simpa using hspace), ← List.cons_append, hlast]
  have hback (field : List Char) : (field.map (·, false)).map Prod.fst = field := by
    simp [Function.comp_def]
  have hmap := readFields_map (fun x : Char × Bool => isBlank x.1 && !x.2) (·, false) 5 e.line
  rw [lineFields, hmap]
  simp only [Bool.not_false, Bool.and_true]
  rw [hfields]
  simp only [List.map_cons, List.map_nil, hback]

/-! ## The loop -/

theorem Entry.substitute_addr (hreg : Regular sh reader) (e : Entry) (date : List Char)
    (s : State) :
    substitute date (parseIpv6Word sh e.addr) s = (s, e.value .addrs) := by
  have hne : e.addr ≠ [] := by
    intro hnil
    simpa [hnil] using e.addr_digits.1
  have hplain : e.addr.all isPlain :=
    List.all_eq_true.mpr fun c hc => isPlain_of_digit (e.addr_digits.2 c hc)
  have hparse (t : State) : parseIpv6Word sh e.addr t = .ok (t, e.value .addrs ++ ['\n']) := by
    rw [parseIpv6Word, (hreg.untouched hne hplain).split_eq, List.headD_cons,
      tcParseIpv6Addr_colonForm hne]
    rfl
  apply substitute_line hparse
  intro hmem
  exact absurd (List.all_eq_true.mp (plain_colonForm e.addr_digits.2) _ hmem) (by decide)

theorem Entry.substitute_mask (hreg : Regular sh reader) (e : Entry)
    (expr : List Char → Option ℤ) (date : List Char) (s : State) :
    substitute date (tcHex2dec expr ((sh.split e.plen).headD []) none) s =
      (s, e.value .masks) := by
  obtain ⟨hmin, hmax⟩ := e.plen_range
  have hplain : e.plen.all isPlain :=
    List.all_eq_true.mpr fun c hc => isPlain_of_digit (e.plen_digits.2 c hc)
  have hnum := arith_hexNum expr List.mem_cons_self e.plen_digits.1 e.plen_digits.2
  rw [List.nil_append, wrap_eq (by omega) (by omega)] at hnum
  rw [(hreg.untouched e.plen_digits.1 hplain).split_eq, List.headD_cons]
  apply substitute_ok (tcHex2dec_value hnum (by omega))
  exact not_mem_printInt (by decide) (by decide) _

theorem scopeOf_nibble (scope : Scope) (rest : List Char) :
    scopeOf ((scope.nibble :: rest).take 1) = some scope := by
  cases scope <;> rfl

/-- One line. -/
theorem infoLines_cons (hreg : Regular sh reader) (he : e.Intact sh reader)
    (lines : List (List (Char × Bool))) :
    infoLines sh reader expr date (e.line.map (·, false) :: lines) (arraysOf tables) s =
      infoLines sh reader expr date lines
        (arraysOf fun id => tables id ++ (e.cell id).toList) s := by
  rw [infoLines, lineFields_line]
  simp only [List.getElem?_cons_zero, List.getElem?_cons_succ, Option.getD_some,
    e.substitute_addr hreg, e.substitute_mask hreg, scopeOf_nibble]
  exact congrArg (· >>= _) (pushLine_arraysOf hreg he)

/-- All lines: the arrays grow in step. -/
theorem infoLines_entries (hreg : Regular sh reader) (he : ∀ e ∈ entries, e.Intact sh reader)
    (expr : List Char → Option ℤ) (date : List Char) (tables : Ipv6Array → List (List Char))
    (s : State) :
    infoLines sh reader expr date (entries.map fun e => e.line.map (·, false)) (arraysOf tables) s =
      infoLines sh reader expr date []
        (arraysOf fun id => tables id ++ entries.filterMap (Entry.cell · id)) s := by
  induction entries generalizing tables with
  | nil => simp
  | cons e entries ih =>
      rw [List.forall_mem_cons] at he
      rw [List.map_cons, infoLines_cons hreg he.1, ih he.2]
      congr 2
      funext id
      cases hcell : e.cell id with
      | none => simp [hcell]
      | some v => simp [hcell]

/-- If interfaces have names that come through and no assignment names files, `tc_ipv6_info` builds
the tables, whatever the arrays held before. -/
theorem tcIpv6Info_builds (sh : Shell) (reader : Reader) (expr : List Char → Option ℤ)
    (date : List Char) (entries : List Entry) (before : Ipv6Arrays) (s : State)
    (hreg : Regular sh reader) (hintact : ∀ e ∈ entries, e.Intact sh reader) :
    BuildsTables entries (tcIpv6Info sh reader expr date (some (Entry.file entries)) before s) := by
  have hslash : ∀ e ∈ entries, '\\' ∉ e.iface := by
    intro e he hmem
    exact absurd ((hintact e he).iface.special _ hmem) (by decide)
  have hrun := infoLines_entries hreg hintact expr date (fun _ => []) s
  refine ⟨arraysOf fun id => entries.filterMap (Entry.cell · id), s,
    if (arraysOf (fun id => entries.filterMap (Entry.cell · id)) (.all .addrs)).get 0 = [] then 1
    else 0, ?_, fun id => rfl, ?_⟩
  · rw [tcIpv6Info, readLines_file hslash]
    exact hrun
  · cases entries with
    | nil => simp [arraysOf, get_ofWords]
    | cons e entries =>
        have hne : e.value .addrs ≠ [] := colonForm_ne_nil e.addr
        simp [arraysOf, get_ofWords, Entry.cell, hne]

/-! ## Interfaces -/

/-- A reader in a directory where no word of these pushes names a file. -/
def plainReader : Reader := ⟨fun w => [w], fun _ _ arrays => some arrays⟩

theorem regular_plain : Regular plainShell plainReader := ⟨fun _ _ => rfl, fun _ _ => rfl⟩

/-- A line for an interface with an address of 64 bits for the network. -/
def lineFor (addr : List Char) (scope : Scope) (iface : List Char)
    (haddr : addr.length = 32 ∧ addr.all (isDigitOf 16))
    (hiface : iface ≠ [] ∧ iface.all (!isBlank ·)) : Entry where
  addr := addr
  index := "02".toList
  plen := "40".toList
  scope := scope
  scopeRest := ['0']
  flags := "80".toList
  pad := 4
  iface := iface
  addr_digits := ⟨haddr.1, List.all_eq_true.mp haddr.2⟩
  index_digits := ⟨by decide, List.all_eq_true.mp (by decide)⟩
  plen_digits := ⟨by decide, List.all_eq_true.mp (by decide)⟩
  plen_range := by decide
  scopeRest_digits := List.all_eq_true.mp (by decide)
  flags_digits := ⟨by decide, List.all_eq_true.mp (by decide)⟩
  iface_word := ⟨hiface.1, fun c hc => by simpa using List.all_eq_true.mp hiface.2 c hc⟩

/-- An interface with a global and a link address. -/
def eth0Lines : List Entry :=
  [lineFor "20020903e8569021020d60fffed4c8d4".toList .global "eth0".toList (by decide) (by decide),
    lineFor "fe80000000000000020d60fffed4c8d4".toList .link "eth0".toList (by decide) (by decide)]

theorem tcIpv6Info_builds_eth0 :
    BuildsTables eth0Lines (tcIpv6Info plainShell plainReader (fun _ => none) "noon".toList
      (some (Entry.file eth0Lines)) (fun _ => .ofWords ["stale".toList]) Waiters.calm) := by
  apply tcIpv6Info_builds _ _ _ _ _ _ _ regular_plain
  have hintact (e : Entry) (he : e.iface = "eth0".toList) : e.Intact plainShell plainReader := by
    refine ⟨?_, fun _ _ _ => ⟨rfl, rfl⟩⟩
    rw [he]
    exact regular_plain.untouched (by decide) (by decide)
  rw [eth0Lines, List.forall_mem_cons, List.forall_mem_singleton]
  exact ⟨hintact _ rfl, hintact _ rfl⟩

/-- The interface `a\b`. -/
def slashLine : Entry :=
  lineFor "fe80000000000000020d60fffed4c8d4".toList .link "a\\b".toList (by decide) (by decide)

/-- `read` takes the backslash away. -/
theorem tcIpv6Info_drops_backslash :
    ¬BuildsTables [slashLine] (tcIpv6Info plainShell plainReader (fun _ => none) "noon".toList
      (some (Entry.file [slashLine])) (fun _ => .ofWords []) Waiters.calm) := by
  rintro ⟨arrays, s, status, hrun, htables, -⟩
  have hifaces : (tcIpv6Info plainShell plainReader (fun _ => none) "noon".toList
      (some (Entry.file [slashLine])) (fun _ => .ofWords []) Waiters.calm).map
        (fun r => (r.1 (.all .ifaces)).entries) = some [("ab".toList, 0)] := by
    decide +kernel
  rw [hrun, Option.map_some, htables (.all .ifaces)] at hifaces
  exact absurd hifaces (by decide +kernel)

end AutotestClient.Harness
