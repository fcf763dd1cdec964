import AutotestClient.Shared.Except
import AutotestClient.Verification.FtpTest.Tokens

/-! # Safety of the parser

The parser stays inside the buffer and the table of parameters and finds the words of the command
exactly if the scan ends at a NUL outside of double quotes, there are no more words than the table
holds, none of them starts behind the text, and newlines only end it, right behind a word. -/

namespace AutotestClient.FtpTest

open Shared

variable {buf : List UInt8}

/-- All accesses are inside of the buffer and of `par`, the words are those of the text, and
`handlecmd` has a command. -/
def ParsesRight (buf : List UInt8) : Prop :=
  ∃ parsed, parsecmd buf = .ok parsed ∧ parsed.buf.length = buf.length ∧
    parsed.par.length ≤ nMaxPar ∧ (∀ p ∈ parsed.par, p < buf.length) ∧
    parsed.par.mapM (cString parsed.buf) = .ok (textWords (text buf)) ∧
    ∀ parsed', mainRound buf = .ok (.handlecmd parsed') → parsed'.par[0]? ≠ none

structure Parsable (buf : List UInt8) : Prop where
  ends : ∃ x ∈ marked (started buf), isEnd x
  few : (words isSeparator (scanned buf)).length ≤ nMaxPar
  within : (words isSeparator (scanned buf)).length =
    (words isSeparator (marked (text buf))).length
  newlines : NewlineLast (marked (text buf))
  attached : NewlineAttached (marked (text buf))

/-! ## The start of the command -/

theorem parsecmd_blank (h : started buf = []) : parsecmd buf = .error (.read buf.length) := by
  have hall : ∀ c ∈ buf, c = blank ∨ c = nul := by
    simpa [started] using h
  rw [parsecmd, skipStart_eq_error hall, List.length_nil, Nat.zero_add]
  rfl

theorem head_started {c : UInt8} {v : List UInt8} (h : started buf = c :: v) :
    ¬(c = blank ∨ c = nul) := by
  have hfirst := List.head?_dropWhile_not (fun c : UInt8 => c = blank || c = nul) buf
  rw [show buf.dropWhile _ = c :: v from h] at hfirst
  simpa using hfirst

theorem parsecmd_started (h : started buf ≠ []) :
    ∃ before, buf = before ++ started buf ∧
      parsecmd buf = parseWords [] ⟨before, started buf⟩ := by
  obtain ⟨c, v, hstarted⟩ := List.exists_cons_of_ne_nil h
  have hsplit : buf = (buf.takeWhile fun c => c = blank || c = nul) ++ started buf :=
    List.takeWhile_append_dropWhile.symm
  have hbefore : ∀ c ∈ buf.takeWhile fun c => c = blank || c = nul, c = blank ∨ c = nul :=
    fun c hc => by simpa using List.mem_takeWhile_imp hc
  refine ⟨_, hsplit, ?_⟩
  have hskip := skipStart_append [] v hbefore (head_started hstarted)
  rw [← hstarted, ← hsplit] at hskip
  rw [parsecmd, hskip]
  rfl

/-! ## The whole scan -/

theorem not_isEnd_of_mem_scanned : ∀ x ∈ scanned buf, isEnd x = false := by
  intro x hx
  simpa using List.mem_takeWhile_imp hx

theorem exists_scanned (h : ∃ x ∈ marked (started buf), isEnd x) :
    ∃ z, marked (started buf) = scanned buf ++ (nul, false) :: z := by
  obtain ⟨u, x, z, hsplit, hx, hu⟩ := exists_first_separator h
  have hnul : x = (nul, false) := by
    simpa [isEnd, Prod.ext_iff] using hx
  have hscanned : scanned buf = u := by
    rw [scanned, hsplit]
    refine (takeWhile_append_of_head (fun y hy => by simp [hu y hy]) ?_).1
    simp [hx]
  exact ⟨z, by rw [hscanned, hsplit, hnul]⟩

/-- The scan starts with a word. -/
theorem scanned_starts (h : ∃ x ∈ marked (started buf), isEnd x) :
    scanned buf ≠ [] ∧ ∀ x ∈ (scanned buf).head?, isSeparator x = false := by
  obtain ⟨x, hx, -⟩ := h
  cases hstarted : started buf with
  | nil =>
      rw [hstarted] at hx
      cases hx
  | cons c v =>
      obtain ⟨hsep, hend⟩ := not_stop_iff.mp (head_started hstarted)
      have hscanned : scanned buf = (c, false) ::
          (markQuotes quote (if c = quote then true else false) v).takeWhile (!isEnd ·) := by
        rw [scanned, hstarted]
        exact List.takeWhile_cons_of_pos (by simp [hend])
      rw [hscanned]
      refine ⟨List.cons_ne_nil _ _, fun y hy => ?_⟩
      obtain rfl := Option.some.inj hy
      exact hsep

/-- The text is what is read up to the first NUL, be it inside double quotes or not. -/
theorem marked_text : marked (text buf) = (scanned buf).takeWhile fun x => x.1 ≠ nul := by
  rw [marked, text, markQuotes_takeWhile, scanned, List.takeWhile_takeWhile]
  congr 1
  funext x
  by_cases hx : x.1 = nul <;> simp [isEnd, hx]

theorem started_ne_nil (h : ∃ x ∈ marked (started buf), isEnd x) : started buf ≠ [] := by
  intro hnil
  rw [hnil] at h
  obtain ⟨x, hx, -⟩ := h
  cases hx

/-- What the parser finds if it ends. -/
theorem parsecmd_words (hends : ∃ x ∈ marked (started buf), isEnd x)
    (hfew : (words isSeparator (scanned buf)).length ≤ nMaxPar) :
    ∃ parsed, parsecmd buf = .ok parsed ∧ parsed.buf.length = buf.length ∧
      (∀ p ∈ parsed.par, p < buf.length) ∧
      parsed.par.length = (words isSeparator (scanned buf)).length ∧
      parsed.par.mapM (cString parsed.buf) = .ok ((words isSeparator (scanned buf)).map cut) := by
  obtain ⟨before, hbuf, hparse⟩ := parsecmd_started (started_ne_nil hends)
  obtain ⟨z, hz⟩ := exists_scanned hends
  obtain ⟨hne, hhead⟩ := scanned_starts hends
  obtain ⟨ps, hresult, hps, hstrings⟩ := parseWords_words [] before hz
    not_isEnd_of_mem_scanned hne hhead (by simpa using hfew)
  have hlength : buf.length = before.length + ((scanned buf).length + (z.length + 1)) := by
    have hmarks := congrArg List.length (congrArg (List.map Prod.fst) hz)
    rw [marked, map_fst_markQuotes] at hmarks
    have hall := congrArg List.length hbuf
    rw [List.length_append, hmarks] at hall
    simpa using hall
  refine ⟨_, hparse.trans hresult, ?_, ?_, ?_, ?_⟩
  · simp [hlength]
  · intro p hp
    have hlt := hps p (by simpa using hp)
    omega
  · simpa using congrArg List.length hstrings
  · rw [← hstrings, List.nil_append]
    apply mapM_eq_ok_map
    intro p hp
    have hlt := hps p hp
    rw [cString, if_pos]
    · rfl
    · rw [← List.append_assoc, List.drop_append_of_le_length (by simp; omega)]
      simp

theorem parsecmd_few {parsed : Parsed} (h : parsecmd buf = .ok parsed) :
    (∃ x ∈ marked (started buf), isEnd x) ∧
      (words isSeparator (scanned buf)).length ≤ nMaxPar := by
  have hne : started buf ≠ [] := by
    intro hnil
    rw [parsecmd_blank hnil] at h
    cases h
  obtain ⟨before, -, hparse⟩ := parsecmd_started hne
  rw [hparse] at h
  have hends : ∃ x ∈ marked (started buf), isEnd x := by
    by_contra hopen
    obtain ⟨f, hf⟩ := parseWords_eq_error [] before hne fun x hx => by
      simpa using fun hend => hopen ⟨x, hx, hend⟩
    rw [hf] at h
    cases h
  refine ⟨hends, ?_⟩
  by_contra hmany
  obtain ⟨z, hz⟩ := exists_scanned hends
  obtain ⟨hscanned, hhead⟩ := scanned_starts hends
  obtain ⟨f, hf⟩ := parseWords_many [] before hz not_isEnd_of_mem_scanned
    hscanned hhead (by simpa using hmany)
  rw [hf] at h
  cases h

/-- `handlecmd` is called with what the parser has found. -/
theorem parsecmd_of_mainRound {parsed : Parsed} (h : mainRound buf = .ok (.handlecmd parsed)) :
    parsecmd buf = .ok parsed := by
  rw [mainRound] at h
  obtain ⟨parsed', hparse, h⟩ := bind_eq_ok h
  obtain ⟨printed, -, h⟩ := bind_eq_ok h
  obtain ⟨command, -, h⟩ := bind_eq_ok h
  split_ifs at h
  · cases h
  · obtain rfl : parsed' = parsed := by simpa using h
    exact hparse

/-! ## The condition -/

/-- The words that are found are those of the text. -/
theorem map_cut_scanned_eq_iff :
    (words isSeparator (scanned buf)).map cut = textWords (text buf) ↔
      (words isSeparator (scanned buf)).length = (words isSeparator (marked (text buf))).length ∧
        NewlineLast (marked (text buf)) ∧ NewlineAttached (marked (text buf)) := by
  have hnul : nul ∉ text buf := by
    intro hmem
    simpa using List.mem_takeWhile_imp hmem
  obtain ⟨extra, hextra⟩ := exists_map_cut_words
    (show marked (started buf) = scanned buf ++ _ from List.takeWhile_append_dropWhile.symm)
    not_isEnd_of_mem_scanned
  rw [← marked_text] at hextra
  have hlength := congrArg List.length hextra
  rw [List.length_map, List.length_append, List.length_map] at hlength
  rw [hextra, hlength, ← map_cut_words_eq_iff hnul]
  constructor
  · intro h
    have hwords := congrArg List.length h
    rw [List.length_append, List.length_map] at hwords
    have hle := length_textWords_le (text buf)
    obtain rfl : extra = [] := List.length_eq_zero_iff.mp (by omega)
    rw [List.append_nil] at h
    exact ⟨Nat.add_zero _, h⟩
  · rintro ⟨hwithin, h⟩
    obtain rfl : extra = [] := List.length_eq_zero_iff.mp (by omega)
    rw [List.append_nil, h]

theorem parsecmd_right_iff (buf : List UInt8) : ParsesRight buf ↔ Parsable buf := by
  constructor
  · rintro ⟨parsed, hparse, -, -, -, hwords, -⟩
    obtain ⟨hends, hfew⟩ := parsecmd_few hparse
    obtain ⟨parsed', hparse', -, -, -, hwords'⟩ := parsecmd_words hends hfew
    obtain rfl := Except.ok.inj (hparse.symm.trans hparse')
    obtain ⟨hwithin, hnewlines, hattached⟩ :=
      map_cut_scanned_eq_iff.mp (Except.ok.inj (hwords'.symm.trans hwords))
    exact ⟨hends, hfew, hwithin, hnewlines, hattached⟩
  · intro h
    obtain ⟨parsed, hparse, hlength, hpar, hcount, hwords⟩ := parsecmd_words h.ends h.few
    refine ⟨parsed, hparse, hlength, hcount ▸ h.few, hpar, ?_, ?_⟩
    · rw [hwords, map_cut_scanned_eq_iff.mpr ⟨h.within, h.newlines, h.attached⟩]
    · intro parsed' hround
      obtain ⟨hne, hhead⟩ := scanned_starts h.ends
      obtain ⟨w, s, rest, -, -, -, -, -, -, hscanned⟩ := exists_word hne hhead
      obtain rfl := Except.ok.inj (hparse.symm.trans (parsecmd_of_mainRound hround))
      rw [Ne, List.getElem?_eq_none_iff, hcount, hscanned]
      simp

/-- An empty command: the scan for its first byte leaves the buffer. -/
theorem parsecmd_empty_not_right : ¬ParsesRight (List.replicate 512 nul) := by
  rintro ⟨parsed, hparse, -⟩
  have hblank : started (List.replicate 512 nul) = [] := by
    rw [started, List.dropWhile_eq_nil_iff]
    intro c hc
    simp [List.eq_of_mem_replicate hc]
  rw [parsecmd_blank hblank] at hparse
  cases hparse

end AutotestClient.FtpTest
