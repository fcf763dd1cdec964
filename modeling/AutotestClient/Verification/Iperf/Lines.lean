import AutotestClient.Model.Iperf

/-! # The lines of iperf

A match needs all commas of a line, so it starts in the first field, and then the number of a flow
is the field with the negative number of an aggregate line. -/

namespace AutotestClient.Iperf

open Shared

/-! ## Lines -/

/-- One or more entries of a class. -/
structure Word (p : Char → Bool) where
  text : Text
  ne_nil : text ≠ []
  mem : ∀ c ∈ text, p c

abbrev Digits := Word isDigit

abbrev Decimal := Word isDecimal

/-- The fields of a line for jitter and datagrams. -/
structure Datagrams where
  jitter : Decimal
  numErrorDgrams : Digits
  numDgrams : Digits
  percentErrorDgrams : Decimal
  numOutOfOrderDgrams : Digits

/-- A line of the output. An aggregate line has no number of a flow. -/
structure Line where
  date : Digits
  localIp : Decimal
  localPort : Digits
  remoteIp : Decimal
  remotePort : Digits
  flow : Option Digits
  start : Decimal
  stop : Decimal
  bytesTransfered : Digits
  bandwidth : Digits
  datagrams : Option Datagrams

/-- The field `id`. -/
def Line.id (l : Line) : Text :=
  match l.flow with
  | some flow => flow.text
  | none => "-1".toList

def Datagrams.text (d : Datagrams) : Text :=
  ',' :: (d.jitter.text ++ ',' :: (d.numErrorDgrams.text ++ ',' :: (d.numDgrams.text ++
    ',' :: (d.percentErrorDgrams.text ++ ',' :: d.numOutOfOrderDgrams.text))))

/-- The fields behind `id`. -/
def Line.afterId (l : Line) : Text :=
  l.start.text ++ '-' :: (l.stop.text ++ ',' :: (l.bytesTransfered.text ++
    ',' :: (l.bandwidth.text ++ (l.datagrams.map Datagrams.text).getD [])))

/-- The fields behind `date`. -/
def Line.afterDate (l : Line) : Text :=
  l.localIp.text ++ ',' :: (l.localPort.text ++ ',' :: (l.remoteIp.text ++
    ',' :: (l.remotePort.text ++ ',' :: (l.id ++ ',' :: l.afterId))))

def Line.text (l : Line) : Text := l.date.text ++ ',' :: l.afterDate

/-- The output, with each line ended. -/
def textOf (lines : List Line) : Text := lines.flatMap fun l => l.text ++ ['\n']

/-- The groups of a match for a flow. -/
def Line.tcpGroups (l : Line) (flow : Digits) : List Text :=
  [l.date.text, l.localIp.text, l.localPort.text, l.remoteIp.text, l.remotePort.text, flow.text,
    l.start.text, l.stop.text, l.bytesTransfered.text, l.bandwidth.text]

def Datagrams.groups (d : Datagrams) : List Text :=
  [d.jitter.text, d.numErrorDgrams.text, d.numDgrams.text, d.percentErrorDgrams.text,
    d.numOutOfOrderDgrams.text]

/-! ## Classes -/

variable {p : Char → Bool} {items : List (Item Char)} {a b : Char} {v rest : Text} {l : Line}

theorem isDecimal_of_isDigit {c : Char} (h : isDigit c) : isDecimal c := by
  rw [isDecimal, h]
  rfl

theorem Word.matchHere_field (w : Word p) (hb : p b = false) :
    matchHere (.group p :: .lit b :: items) (w.text ++ b :: v) =
      (matchHere items v).map fun m => (w.text :: m.1, m.2) :=
  Shared.matchHere_field w.ne_nil w.mem hb

theorem Word.countP_eq_zero (w : Word p) (ha : p a = false) :
    w.text.countP (fun c => decide (c = a)) = 0 := by
  rw [List.countP_eq_zero]
  intro c hc heq
  rw [decide_eq_true_eq] at heq
  rw [← heq, w.mem c hc] at ha
  cases ha

theorem apart_udpPattern (ha : isDecimal a = false) :
    Apart (fun c => decide (c = a)) udpPattern := by
  intro p hp c hc
  have hclass : p = isDigit ∨ p = isDecimal := by
    simp [udpPattern, tcpPattern] at hp
    tauto
  have hdecimal : isDecimal c := by
    rcases hclass with rfl | rfl
    · exact isDecimal_of_isDigit hc
    · exact hc
  rw [decide_eq_false_iff_not]
  rintro rfl
  rw [ha] at hdecimal
  cases hdecimal

theorem apart_tcpPattern (ha : isDecimal a = false) :
    Apart (fun c => decide (c = a)) tcpPattern :=
  fun p hp => apart_udpPattern ha p (List.mem_append_left _ hp)

/-! ## Commas -/

@[simp] theorem countP_digits (w : Digits) : w.text.countP (fun c => decide (c = ',')) = 0 :=
  w.countP_eq_zero rfl

@[simp] theorem countP_decimal (w : Decimal) : w.text.countP (fun c => decide (c = ',')) = 0 :=
  w.countP_eq_zero rfl

@[simp] theorem Line.countP_id (l : Line) : l.id.countP (fun c => decide (c = ',')) = 0 := by
  rw [Line.id]
  split
  · exact countP_digits _
  · rfl

@[simp] theorem Datagrams.countP_text (d : Datagrams) :
    d.text.countP (fun c => decide (c = ',')) = 5 := by
  simp [Datagrams.text, List.countP_append]

/-- The commas behind the first one. -/
theorem Line.countP_afterDate (l : Line) :
    l.afterDate.countP (fun c => decide (c = ',')) = if l.datagrams.isSome then 12 else 7 := by
  cases hd : l.datagrams <;> simp [Line.afterDate, Line.afterId, List.countP_append, hd]

theorem Line.countP_text (l : Line) :
    l.text.countP (fun c => decide (c = ',')) = if l.datagrams.isSome then 13 else 8 := by
  rw [Line.text, List.countP_append, List.countP_cons, l.countP_afterDate, countP_digits]
  split_ifs <;> simp_all

/-! ## Line ends -/

theorem Word.not_mem (w : Word p) (ha : p a = false) : a ∉ w.text := by
  intro hmem
  rw [w.mem a hmem] at ha
  cases ha

@[simp] theorem newline_not_mem_digits (w : Digits) : '\n' ∉ w.text := w.not_mem rfl

@[simp] theorem newline_not_mem_decimal (w : Decimal) : '\n' ∉ w.text := w.not_mem rfl

theorem Line.newline_not_mem (l : Line) : '\n' ∉ l.text := by
  have hid : '\n' ∉ l.id := by
    rw [Line.id]
    split
    · exact newline_not_mem_digits _
    · decide
  cases hd : l.datagrams <;>
    simp [Line.text, Line.afterDate, Line.afterId, Datagrams.text, hd, hid]

/-! ## Matches -/

/-- A group does not start with the end of a line. -/
theorem findall_newline (hp : p '\n' = false) :
    findall (.group p :: items) ('\n' :: rest) = findall (.group p :: items) rest :=
  findall_of_none (matchHere_group_of_head (by simpa using hp))

/-- A part of a line with too few commas is passed over. -/
theorem findall_of_few_commas (hp : p '\n' = false)
    (hapart : ∀ a, isDecimal a = false → Apart (fun c => decide (c = a)) (.group p :: items))
    (hnone : (Item.group p :: items).countP (Item.isLit fun c => decide (c = '\n')) = 0)
    (hfew : v.countP (fun c => decide (c = ',')) <
      (Item.group p :: items).countP (Item.isLit fun c => decide (c = ','))) :
    findall (.group p :: items) (v ++ '\n' :: rest) = findall (.group p :: items) rest := by
  rw [findall_of_countP (hapart ',' (by decide)) (hapart '\n' (by decide)) hnone (by simp) hfew]
  exact findall_newline hp

theorem findall_tcp_of_few_commas (hfew : v.countP (fun c => decide (c = ',')) < 8) :
    findall tcpPattern (v ++ '\n' :: rest) = findall tcpPattern rest :=
  findall_of_few_commas rfl (fun _ => apart_tcpPattern) rfl hfew

theorem findall_udp_of_few_commas (hfew : v.countP (fun c => decide (c = ',')) < 13) :
    findall udpPattern (v ++ '\n' :: rest) = findall udpPattern rest :=
  findall_of_few_commas rfl (fun _ => apart_udpPattern) rfl hfew

/-- The two addresses with their ports. -/
theorem matchHere_addresses (l : Line) :
    matchHere (.group isDecimal :: .lit ',' :: .group isDigit :: .lit ',' :: .group isDecimal ::
        .lit ',' :: .group isDigit :: .lit ',' :: items)
      (l.localIp.text ++ ',' :: (l.localPort.text ++ ',' :: (l.remoteIp.text ++
        ',' :: (l.remotePort.text ++ ',' :: v)))) =
      (matchHere items v).map fun m => (l.localIp.text :: l.localPort.text :: l.remoteIp.text ::
        l.remotePort.text :: m.1, m.2) := by
  rw [l.localIp.matchHere_field rfl, l.localPort.matchHere_field rfl,
    l.remoteIp.matchHere_field rfl, l.remotePort.matchHere_field rfl]
  simp only [Option.map_map]
  rfl

/-- An aggregate line has no match for the fields from its addresses on. -/
theorem matchHere_aggregate (items : List (Item Char)) (hflow : l.flow = none) (v : Text) :
    matchHere (.group isDecimal :: .lit ',' :: .group isDigit :: .lit ',' :: .group isDecimal ::
        .lit ',' :: .group isDigit :: .lit ',' :: .group isDigit :: items) (l.afterDate ++ v) =
      none := by
  have hid : l.id = "-1".toList := by rw [Line.id, hflow]
  simp only [Line.afterDate, List.append_assoc, List.cons_append]
  rw [matchHere_addresses, hid]
  have hminus : ∀ c ∈ ("-1".toList ++ ',' :: (l.afterId ++ v)).head?, isDigit c = false := by
    simp
    decide
  rw [matchHere_group_of_head hminus]
  rfl

theorem matchHere_tcp {flow : Digits} (hflow : l.flow = some flow) (hd : l.datagrams = none) :
    matchHere tcpPattern (l.text ++ '\n' :: rest) = some (l.tcpGroups flow, '\n' :: rest) := by
  have hid : l.id = flow.text := by rw [Line.id, hflow]
  have hlast := matchHere_last l.bandwidth.ne_nil l.bandwidth.mem
    (show ∀ c ∈ ('\n' :: rest).head?, isDigit c = false by simp; decide)
  simp only [Line.text, Line.afterDate, Line.afterId, hd, hid, Option.map_none, Option.getD_none,
    List.append_assoc, List.cons_append, List.nil_append]
  rw [tcpPattern, l.date.matchHere_field rfl, matchHere_addresses, flow.matchHere_field rfl,
    l.start.matchHere_field rfl, l.stop.matchHere_field rfl, l.bytesTransfered.matchHere_field rfl,
    hlast]
  rfl

theorem matchHere_udp {flow : Digits} {d : Datagrams} (hflow : l.flow = some flow)
    (hd : l.datagrams = some d) :
    matchHere udpPattern (l.text ++ '\n' :: rest) =
      some (l.tcpGroups flow ++ d.groups, '\n' :: rest) := by
  have hid : l.id = flow.text := by rw [Line.id, hflow]
  have hlast := matchHere_last d.numOutOfOrderDgrams.ne_nil d.numOutOfOrderDgrams.mem
    (show ∀ c ∈ ('\n' :: rest).head?, isDigit c = false by simp; decide)
  simp only [Line.text, Line.afterDate, Line.afterId, Datagrams.text, hd, hid, Option.map_some,
    Option.getD_some, List.append_assoc, List.cons_append]
  rw [udpPattern, tcpPattern]
  simp only [List.cons_append, List.nil_append]
  rw [l.date.matchHere_field rfl, matchHere_addresses, flow.matchHere_field rfl,
    l.start.matchHere_field rfl, l.stop.matchHere_field rfl, l.bytesTransfered.matchHere_field rfl,
    l.bandwidth.matchHere_field rfl, d.jitter.matchHere_field rfl,
    d.numErrorDgrams.matchHere_field rfl, d.numDgrams.matchHere_field rfl,
    d.percentErrorDgrams.matchHere_field rfl, hlast]
  rfl

/-! ## What is found -/

/-- What is found in a line of TCP mode. -/
def Line.tcpMatch (l : Line) : Option (List Text) := l.flow.map l.tcpGroups

/-- What is found in a line of UDP mode. -/
def Line.udpMatch (l : Line) : Option (List Text) :=
  l.flow.bind fun flow => l.datagrams.map fun d => l.tcpGroups flow ++ d.groups

theorem text_ne_nil (l : Line) : l.text ≠ [] := by simp [Line.text]

/-- Where an aggregate line has no match, the search goes on in the next line. -/
theorem findall_tcp_line (hd : l.datagrams = none) :
    findall tcpPattern (l.text ++ '\n' :: rest) =
      l.tcpMatch.toList ++ findall tcpPattern rest := by
  cases hflow : l.flow with
  | none =>
      have hnone := matchHere_aggregate (tcpPattern.drop 11) hflow ('\n' :: rest)
      have hcount : l.afterDate.countP (fun c => decide (c = ',')) < 8 := by
        rw [l.countP_afterDate, hd]
        decide
      rw [Line.text, List.append_assoc, List.cons_append, Line.tcpMatch, hflow]
      exact (findall_field_of_none l.date.mem rfl hnone).trans (findall_tcp_of_few_commas hcount)
  | some flow =>
      rw [findall_of_match (text_ne_nil l) (matchHere_tcp hflow hd), Line.tcpMatch, hflow]
      exact congrArg (_ :: ·) (findall_newline rfl)

theorem findall_udp_line (l : Line) (rest : Text) :
    findall udpPattern (l.text ++ '\n' :: rest) =
      l.udpMatch.toList ++ findall udpPattern rest := by
  cases hd : l.datagrams with
  | none =>
      have hcount : l.text.countP (fun c => decide (c = ',')) < 13 := by
        rw [l.countP_text, hd]
        decide
      have hmatch : l.udpMatch = none := by
        rw [Line.udpMatch, hd]
        cases l.flow <;> rfl
      rw [findall_udp_of_few_commas hcount, hmatch]
      rfl
  | some d =>
      cases hflow : l.flow with
      | none =>
          have hnone := matchHere_aggregate (udpPattern.drop 11) hflow ('\n' :: rest)
          have hcount : l.afterDate.countP (fun c => decide (c = ',')) < 13 := by
            rw [l.countP_afterDate, hd, Option.isSome_some, if_pos rfl]
            decide
          rw [Line.text, List.append_assoc, List.cons_append, Line.udpMatch, hflow]
          exact (findall_field_of_none l.date.mem rfl hnone).trans (findall_udp_of_few_commas hcount)
      | some flow =>
          rw [findall_of_match (text_ne_nil l) (matchHere_udp hflow hd), Line.udpMatch, hflow, hd]
          exact congrArg (_ :: ·) (findall_newline rfl)

theorem findall_textOf {items : List (Item Char)} {found : Line → Option (List Text)}
    {lines : List Line} (hnil : findall items [] = [])
    (hline : ∀ l ∈ lines, ∀ rest, findall items (l.text ++ '\n' :: rest) =
      (found l).toList ++ findall items rest) :
    findall items (textOf lines) = lines.filterMap found := by
  induction lines with
  | nil => exact hnil
  | cons l lines ih =>
      rw [List.forall_mem_cons] at hline
      have hcons : textOf (l :: lines) = l.text ++ '\n' :: textOf lines := by simp [textOf]
      rw [hcons, hline.1, ih hline.2]
      cases hfound : found l <;> simp [hfound]

theorem findall_tcp {lines : List Line} (h : ∀ l ∈ lines, l.datagrams = none) :
    findall tcpPattern (textOf lines) = lines.filterMap Line.tcpMatch :=
  findall_textOf rfl fun l hl _ => findall_tcp_line (h l hl)

theorem findall_udp (lines : List Line) :
    findall udpPattern (textOf lines) = lines.filterMap Line.udpMatch :=
  findall_textOf rfl fun l _ rest => findall_udp_line l rest

end AutotestClient.Iperf
