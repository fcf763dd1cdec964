import AutotestClient.Model.Harness.Mounts
import AutotestClient.Verification.Harness.Arrays

/-! # Which mount point decides

The function stops at the first directory on the way up that is a mount point of the type asked
for, and passes mount points of other types by. -/

namespace AutotestClient.Harness

open Shared

/-! ## Mounts -/

structure Mount where
  device : List Char
  point : List Char
  fstype : List Char
  options : List Char
  absolute : point.head? = some '/'

/-- The digits that stand for a character in `/proc/mounts`, behind a backslash. -/
def octal : Char → Option (List Char)
  | ' ' => some ['0', '4', '0']
  | '\t' => some ['0', '1', '1']
  | '\n' => some ['0', '1', '2']
  | '\\' => some ['1', '3', '4']
  | _ => none

def escape (name : List Char) : List Char :=
  name.flatMap fun c => ((octal c).map ('\\' :: ·)).getD [c]

/-- A name as `read` leaves it, without the backslashes. -/
def seen (name : List Char) : List Char := name.flatMap fun c => (octal c).getD [c]

/-- Its line in `/proc/mounts`. -/
def Mount.line (m : Mount) : List Char :=
  [' '].intercalate
    [escape m.device, escape m.point, escape m.fstype, escape m.options, ['0'], ['0']]

/-- The path is the mount point or below it. -/
def Covers (point path : List Char) : Prop :=
  point = path ∨ point = ['/'] ∨ point ++ ['/'] <+: path

instance (point path : List Char) : Decidable (Covers point path) :=
  inferInstanceAs (Decidable (_ ∨ _ ∨ _))

/-- The mount that holds the path: no other that covers it has a longer mount point. -/
def Holds (table : List Mount) (path : List Char) (m : Mount) : Prop :=
  m ∈ table ∧ Covers m.point path ∧
    ∀ m' ∈ table, Covers m'.point path → m'.point.length ≤ m.point.length

/-! ## Lines that can be read -/

/-- The expansions leave the device, the mount point and the type alone, but for a dash in front. -/
structure Mount.Plain (sh : Shell) (m : Mount) : Prop where
  device : m.device ≠ []
  fstype : m.fstype ≠ []
  kept : ∀ name ∈ [m.device, m.point, m.fstype], Kept sh (seen name)
  masked : Kept sh (maskDashes true (seen m.device))
  echo : isEchoOption (seen m.device) = false
  plus : (seen m.device).head? ≠ some '+'

/-- The comparisons with the positional parameters. -/
def Matches (fstype dir : List Char) (args : List (List Char)) : Prop :=
  args[2]?.getD [] = fstype ∧ dir = args[1]?.getD []

instance (fstype dir : List Char) (args : List (List Char)) : Decidable (Matches fstype dir args) :=
  inferInstanceAs (Decidable (_ ∧ _))

variable {sh : Shell} {options : List (List Char) → List (List Char) → List (List Char)}
  {table rows : List Mount} {m : Mount} {path fstype u v point dir : List Char}
  {args : List (List Char)}

/-- The mount is one of the type, at or above the path, by the names that are read. -/
def Mount.Wanted (path fstype : List Char) (m : Mount) : Prop :=
  seen m.fstype = fstype ∧ Covers (seen m.point) path

instance (path fstype : List Char) (m : Mount) : Decidable (m.Wanted path fstype) :=
  inferInstanceAs (Decidable (_ ∧ _))

/-- The mount is of no interest, and whatever becomes of its line is not taken for one that is. -/
structure Mount.Passed (sh : Shell)
    (options : List (List Char) → List (List Char) → List (List Char)) (path fstype : List Char)
    (m : Mount) : Prop where
  unwanted : ¬m.Wanted path fstype
  other : ∀ dir ≠ [], Covers dir path → ∀ args,
    Matches fstype dir (setArgs options args (sh.mountWords m.line)) → Matches fstype dir args

/-- The loop over the directories gets up to this one: until then each is one word. -/
def Reached (sh : Shell) (path point : List Char) : Prop :=
  ∀ dir ≠ [], Covers dir path → point.length ≤ dir.length → (sh.split dir).length = 1

/-- The mounts on the way up agree with the one that holds the path. -/
structure Decides (sh : Shell) (table : List Mount) (path fstype : List Char) : Prop where
  /-- None of the type is above one of another type that holds the path. -/
  above : ∀ m ∈ table, m.Wanted path fstype → Reached sh path (seen m.point) →
    ∃ h, Holds table path h ∧ h.fstype = fstype
  /-- If the one that holds the path is of the type, one of the type is found. -/
  found : ∀ h, Holds table path h → h.fstype = fstype →
    ∃ m ∈ table, m.Wanted path fstype ∧ Reached sh path (seen m.point)

/-! ## Reading a line -/

theorem unescape_cons {c : Char} (hc : c ≠ '\\') (text : List Char) :
    unescape (c :: text) = c :: unescape text := by
  rw [unescape.eq_4]
  · rintro rfl
    exact absurd rfl hc
  · rintro d rest rfl
    exact absurd rfl hc

theorem octal_cases (c : Char) :
    octal c = none ∧ isBlank c = false ∧ c ≠ '\\' ∨
      ∃ d e f, octal c = some [d, e, f] ∧ d ≠ '\\' ∧ e ≠ '\\' ∧ f ≠ '\\' ∧
        [d, e, f].all fun x => !isBlank x := by
  unfold octal
  split
  · exact .inr ⟨'0', '4', '0', rfl, by decide, by decide, by decide, rfl⟩
  · exact .inr ⟨'0', '1', '1', rfl, by decide, by decide, by decide, rfl⟩
  · exact .inr ⟨'0', '1', '2', rfl, by decide, by decide, by decide, rfl⟩
  · exact .inr ⟨'1', '3', '4', rfl, by decide, by decide, by decide, rfl⟩
  · rename_i hspace htab hline hslash
    exact .inl ⟨rfl, by simpa [isBlank] using ⟨⟨hspace, htab⟩, hline⟩, hslash⟩

theorem unescape_escape (name rest : List Char) :
    unescape (escape name ++ rest) = seen name ++ unescape rest := by
  induction name with
  | nil => rfl
  | cons c name ih =>
      rw [escape, seen, List.flatMap_cons, List.flatMap_cons, ← escape, ← seen]
      rcases octal_cases c with ⟨hnone, -, hc⟩ | ⟨d, e, f, hsome, -, he, hf, -⟩
      · simp only [hnone, Option.map_none, Option.getD_none, List.cons_append, List.nil_append,
          unescape_cons hc, ih]
      · simp only [hsome, Option.map_some, Option.getD_some, List.cons_append, List.nil_append]
        rw [unescape, unescape_cons he, unescape_cons hf, ih]

theorem not_blank_seen (name : List Char) : ∀ c ∈ seen name, isBlank c = false := by
  intro c hc
  obtain ⟨x, -, hx⟩ := List.mem_flatMap.mp hc
  rcases octal_cases x with ⟨hnone, hblank, -⟩ | ⟨d, e, f, hsome, -, -, -, hblank⟩
  · rw [hnone, Option.getD_none, List.mem_singleton] at hx
    rw [hx, hblank]
  · rw [hsome, Option.getD_some] at hx
    simpa using List.all_eq_true.mp hblank c hx

theorem seen_ne_nil {name : List Char} (hne : name ≠ []) : seen name ≠ [] := by
  obtain ⟨c, name, rfl⟩ := List.exists_cons_of_ne_nil hne
  rw [seen, List.flatMap_cons]
  rcases octal_cases c with ⟨hnone, -⟩ | ⟨d, e, f, hsome, -⟩
  · simp [hnone]
  · simp [hsome]

theorem Mount.seen_point_ne_nil (m : Mount) : seen m.point ≠ [] := by
  apply seen_ne_nil
  intro h
  simpa [h] using m.absolute

theorem newline_not_mem_seen (name : List Char) : '\n' ∉ seen name := by
  intro hmem
  exact absurd (not_blank_seen name _ hmem) (by decide)

/-- What `read` leaves of the line. -/
theorem Mount.unescape_line (m : Mount) :
    unescape m.line = [' '].intercalate
      [seen m.device, seen m.point, seen m.fstype, seen m.options, ['0'], ['0']] := by
  have hspace (name rest : List Char) :
      unescape (escape name ++ ' ' :: rest) = seen name ++ ' ' :: unescape rest := by
    rw [unescape_escape, unescape_cons (by decide)]
  simp only [Mount.line, List.intercalate_cons_cons, List.intercalate_singleton, List.append_assoc,
    List.singleton_append, hspace]
  rfl

theorem maskDashes_false (hu : '\n' ∉ u) : maskDashes false u = u := by
  induction u with
  | nil => rfl
  | cons c u ih =>
      rw [List.mem_cons, not_or] at hu
      rw [maskDashes, decide_eq_false (Ne.symm hu.1), ih hu.2]
      simp

theorem maskDashes_append {start : Bool} (hne : u ≠ []) (hu : '\n' ∉ u) (v : List Char) :
    maskDashes start (u ++ v) = maskDashes start u ++ maskDashes false v := by
  induction u generalizing start with
  | nil => exact absurd rfl hne
  | cons c u ih =>
      rw [List.mem_cons, not_or] at hu
      rw [List.cons_append, maskDashes, maskDashes, decide_eq_false (Ne.symm hu.1),
        List.cons_append]
      cases u with
      | nil => rfl
      | cons d u => rw [ih (List.cons_ne_nil d u) hu.2]

theorem maskDashes_cons (c : Char) (v : List Char) :
    maskDashes false (c :: v) = c :: maskDashes (c = '\n') v := by
  simp [maskDashes]

/-- Masked, a device without blanks is a word that does not begin with a dash. -/
theorem maskDashes_spec (hne : u ≠ []) (hu : ∀ c ∈ u, isBlank c = false) :
    maskDashes true u ≠ [] ∧ (∀ c ∈ maskDashes true u, isBlank c = false) ∧
      (maskDashes true u).head? ≠ some '-' ∧
      ((maskDashes true u).head? = some '+' → u.head? = some '+') := by
  obtain ⟨c, u, rfl⟩ := List.exists_cons_of_ne_nil hne
  rw [List.forall_mem_cons] at hu
  have hline : '\n' ∉ u := fun hmem => absurd (hu.2 _ hmem) (by decide)
  have hc : c ≠ '\n' := by
    rintro rfl
    exact absurd hu.1 (by decide)
  rw [maskDashes, decide_eq_false hc, maskDashes_false hline]
  by_cases hdash : c = '-'
  · subst hdash
    exact ⟨by simp, List.forall_mem_cons.mpr ⟨by decide, hu.2⟩, by simp, by simp⟩
  · simp only [hdash, and_false, if_false]
    exact ⟨by simp, List.forall_mem_cons.mpr hu, by simpa using hdash, id⟩

/-- What `echo` prints goes on with a blank behind the first word. -/
theorem exists_echoed (w : List Char) (ws : List (List Char)) :
    ∃ c rest, isBlank c ∧ [' '].intercalate (w :: ws) ++ ['\n'] = w ++ c :: rest := by
  cases ws with
  | nil => exact ⟨'\n', [], rfl, by rw [List.intercalate_singleton]⟩
  | cons w' ws =>
      refine ⟨' ', [' '].intercalate (w' :: ws) ++ ['\n'], rfl, ?_⟩
      rw [List.intercalate_cons_cons]
      simp

theorem Kept.split_append {w : List Char} (h : Kept sh w) (hne : w ≠ [])
    (hw : ∀ c ∈ w, isBlank c = false) {c : Char} (hc : isBlank c) (rest : List Char) :
    sh.split (w ++ c :: rest) = w :: sh.split rest := by
  rw [Shell.split, words_append_cons _ _ hc, words_of_forall hne hw, List.flatMap_append,
    List.flatMap_singleton, h]
  rfl

/-- The words of a plain line begin with its own three, the dash apart. -/
theorem Mount.Plain.mountWords (h : m.Plain sh) :
    ∃ rest, sh.mountWords m.line =
      maskDashes true (seen m.device) :: seen m.point :: seen m.fstype :: rest := by
  have hdevice := seen_ne_nil h.device
  have hpoint := m.seen_point_ne_nil
  have hfstype := seen_ne_nil h.fstype
  have hkept := h.kept
  simp only [List.forall_mem_cons, List.not_mem_nil, false_imp_iff, implies_true, and_true] at hkept
  obtain ⟨hdevice', hpoint', hfstype'⟩ := hkept
  have hsplit : sh.split (unescape m.line) = seen m.device :: seen m.point :: seen m.fstype ::
      sh.split ([' '].intercalate [seen m.options, ['0'], ['0']]) := by
    rw [m.unescape_line]
    simp only [List.intercalate_cons_cons, List.append_assoc, List.singleton_append]
    rw [hdevice'.split_append hdevice (not_blank_seen _) rfl,
      hpoint'.split_append hpoint (not_blank_seen _) rfl,
      hfstype'.split_append hfstype (not_blank_seen _) rfl]
  obtain ⟨c, rest, hc, hecho⟩ := exists_echoed (seen m.fstype)
    (sh.split ([' '].intercalate [seen m.options, ['0'], ['0']]))
  have htext : maskDashes true (sh.echo (sh.split (unescape m.line))) =
      maskDashes true (seen m.device) ++ ' ' ::
        (seen m.point ++ ' ' :: (seen m.fstype ++ c :: maskDashes (c = '\n') rest)) := by
    rw [hsplit, Shell.echo_cons h.echo, List.intercalate_cons_cons, List.intercalate_cons_cons]
    simp only [List.append_assoc, List.cons_append, List.nil_append, hecho]
    rw [maskDashes_append hdevice (newline_not_mem_seen _), maskDashes_cons]
    simp only [Char.reduceEq, decide_false]
    rw [maskDashes_append hpoint (newline_not_mem_seen _), maskDashes_cons,
      maskDashes_false (newline_not_mem_seen _)]
    simp only [Char.reduceEq, decide_false]
    rw [maskDashes_append hfstype (newline_not_mem_seen _), maskDashes_cons,
      maskDashes_false (newline_not_mem_seen _)]
  have hmask := maskDashes_spec hdevice (not_blank_seen m.device)
  refine ⟨sh.split (maskDashes (c = '\n') rest), ?_⟩
  rw [Shell.mountWords, htext, h.masked.split_append hmask.1 hmask.2.1 rfl,
    hpoint'.split_append hpoint (not_blank_seen _) rfl,
    hfstype'.split_append hfstype (not_blank_seen _) hc]

theorem Mount.Plain.matches_iff (h : m.Plain sh) (args : List (List Char)) :
    Matches fstype dir (setArgs options args (sh.mountWords m.line)) ↔
      seen m.fstype = fstype ∧ seen m.point = dir := by
  obtain ⟨rest, hrest⟩ := h.mountWords
  have hmask := maskDashes_spec (seen_ne_nil h.device) (not_blank_seen m.device)
  have hoption : (maskDashes true (seen m.device)).head? ∉ [some '-', some '+'] := by
    simp only [List.mem_cons, List.not_mem_nil, or_false, not_or]
    exact ⟨hmask.2.2.1, fun hplus => h.plus (hmask.2.2.2 hplus)⟩
  rw [hrest, setArgs, if_neg hoption, Matches]
  simp only [List.getElem?_cons_succ, List.getElem?_cons_zero, Option.getD_some]
  rw [eq_comm (a := dir)]

/-! ## The loops -/

/-- What the positional parameters can match, a line of the table does. -/
def Backed (table : List Mount) (path fstype : List Char) (args : List (List Char)) : Prop :=
  ∀ dir ≠ [], Covers dir path → Matches fstype dir args →
    ∃ m ∈ table, seen m.fstype = fstype ∧ seen m.point = dir

/-- One line keeps the positional parameters backed. -/
theorem Backed.setArgs (hbacked : Backed table path fstype args) (hm : m ∈ table)
    (h : m.Plain sh ∨ m.Passed sh options path fstype) :
    Backed table path fstype (setArgs options args (sh.mountWords m.line)) := by
  intro dir hdir hcovers hmatches
  rcases h with hplain | hpassed
  · exact ⟨m, hm, (hplain.matches_iff args).mp hmatches⟩
  · exact hbacked dir hdir hcovers (hpassed.other dir hdir hcovers args hmatches)

theorem scanMounts_cons (m : Mount) (rows : List Mount) (args : List (List Char)) :
    scanMounts sh options dir fstype ((m :: rows).map Mount.line) args =
      if Matches fstype dir (setArgs options args (sh.mountWords m.line)) then
        (true, setArgs options args (sh.mountWords m.line))
      else
        scanMounts sh options dir fstype (rows.map Mount.line)
          (setArgs options args (sh.mountWords m.line)) := by
  rw [List.map_cons, scanMounts]
  rfl

theorem scanMounts_spec (h : ∀ m ∈ table, m.Plain sh ∨ m.Passed sh options path fstype)
    (hrows : rows ⊆ table) (hdir : dir ≠ []) (hcovers : Covers dir path)
    (hbacked : Backed table path fstype args) :
    Backed table path fstype (scanMounts sh options dir fstype (rows.map Mount.line) args).2 ∧
      ((scanMounts sh options dir fstype (rows.map Mount.line) args).1 = true →
        ∃ m ∈ table, seen m.fstype = fstype ∧ seen m.point = dir) ∧
      ((∃ m ∈ rows, seen m.fstype = fstype ∧ seen m.point = dir) →
        (scanMounts sh options dir fstype (rows.map Mount.line) args).1 = true) := by
  induction rows generalizing args with
  | nil => simpa [scanMounts] using hbacked
  | cons m rows ih =>
      rw [List.cons_subset] at hrows
      have hnext := hbacked.setArgs hrows.1 (h m hrows.1)
      rw [scanMounts_cons]
      by_cases hmatches : Matches fstype dir (Harness.setArgs options args (sh.mountWords m.line))
      · rw [if_pos hmatches]
        dsimp only
        exact ⟨hnext, fun _ => hnext dir hdir hcovers hmatches, fun _ => rfl⟩
      · obtain ⟨hkept, hsound, hcomplete⟩ := ih hrows.2 hnext
        rw [if_neg hmatches, List.exists_mem_cons_iff]
        refine ⟨hkept, hsound, ?_⟩
        rintro (⟨htype, hpoint⟩ | hlater)
        · rcases h m hrows.1 with hplain | hpassed
          · exact absurd ((hplain.matches_iff args).mpr ⟨htype, hpoint⟩) hmatches
          · exact absurd ⟨htype, hpoint.symm ▸ hcovers⟩ hpassed.unwanted
        · exact hcomplete hlater

theorem exists_last_slash (h : '/' ∈ path) : ∃ u v, path = u ++ '/' :: v ∧ '/' ∉ v := by
  obtain ⟨v, d, u, hrev, hd, hv⟩ := @exists_first_separator _ (· = '/') path.reverse
    ⟨'/', List.mem_reverse.mpr h, by simp⟩
  obtain rfl : d = '/' := by simpa using hd
  refine ⟨u.reverse, v.reverse, ?_, ?_⟩
  · rw [← List.reverse_reverse path, hrev]
    simp
  · intro hmem
    simpa using hv '/' (List.mem_reverse.mp hmem)

theorem dropComponent_eq (hv : '/' ∉ v) : dropComponent (u ++ '/' :: v) = u := by
  have hdrop : ((u ++ '/' :: v).reverse.dropWhile (· ≠ '/')) = '/' :: u.reverse := by
    rw [List.reverse_append, List.reverse_cons, List.append_assoc, List.singleton_append]
    exact (takeWhile_ne_append (mt List.mem_reverse.mp hv)).2
  rw [dropComponent, if_pos (by simp), hdrop, List.tail_cons, List.reverse_reverse]

/-- A directory above a path is the one above its last component or above that. -/
theorem append_slash_prefix_iff (hv : '/' ∉ v) :
    point ++ ['/'] <+: u ++ '/' :: v ↔ point = u ∨ point ++ ['/'] <+: u := by
  constructor
  · rintro ⟨t, ht⟩
    rw [List.append_assoc, List.singleton_append] at ht
    rcases List.append_eq_append_iff.mp ht with ⟨w, hu, hw⟩ | ⟨w, hpoint, hw⟩
    · cases w with
      | nil =>
          rw [List.append_nil] at hu
          exact .inl hu.symm
      | cons c w =>
          rw [List.cons_append, List.cons.injEq] at hw
          right
          rw [hu, ← hw.1]
          exact ⟨w, by simp⟩
    · cases w with
      | nil =>
          rw [List.append_nil] at hpoint
          exact .inl hpoint
      | cons c w =>
          rw [List.cons_append, List.cons.injEq] at hw
          rw [hw.2] at hv
          simp at hv
  · rintro (rfl | ⟨t, rfl⟩)
    · exact ⟨v, by simp⟩
    · exact ⟨t ++ '/' :: v, by simp⟩

theorem parentPath_cases (hpath : path.head? = some '/') (hne : path ≠ ['/']) :
    ∃ u v, path = u ++ '/' :: v ∧ '/' ∉ v ∧
      (u = [] ∧ parentPath path = ['/'] ∨ u.head? = some '/' ∧ parentPath path = u) ∧
      (parentPath path).length < path.length := by
  obtain ⟨u, v, rfl, hv⟩ := exists_last_slash (List.mem_of_mem_head? hpath)
  refine ⟨u, v, rfl, hv, ?_⟩
  rw [parentPath, dropComponent_eq hv]
  cases u with
  | nil =>
      have hv' : v ≠ [] := by
        rintro rfl
        exact hne rfl
      refine ⟨.inl ⟨rfl, rfl⟩, ?_⟩
      simpa using List.length_pos_iff.mpr hv'
  | cons c u =>
      refine ⟨.inr ⟨by simpa using hpath, rfl⟩, ?_⟩
      simp

theorem head_parentPath (hpath : path.head? = some '/') (hne : path ≠ ['/']) :
    (parentPath path).head? = some '/' := by
  obtain ⟨u, v, -, -, hparent, -⟩ := parentPath_cases hpath hne
  rcases hparent with ⟨-, hparent⟩ | ⟨hu, hparent⟩
  · rw [hparent]
    rfl
  · rw [hparent, hu]

/-- Nothing but the root is above the root. -/
theorem covers_root_iff (hpoint : point ≠ []) : Covers point ['/'] ↔ point = ['/'] := by
  have hroot : ¬point ++ ['/'] <+: ['/'] := by
    intro h
    have hlength := h.length_le
    simp at hlength
    exact hpoint hlength
  rw [Covers, or_iff_left hroot, or_self]

theorem covers_iff (hpoint : point ≠ []) (hpath : path.head? = some '/') (hne : path ≠ ['/']) :
    Covers point path ↔ point = path ∨ Covers point (parentPath path) := by
  obtain ⟨u, v, rfl, hv, hparent, -⟩ := parentPath_cases hpath hne
  rw [Covers, append_slash_prefix_iff hv]
  rcases hparent with ⟨rfl, hparent⟩ | ⟨-, hparent⟩
  · rw [hparent, covers_root_iff hpoint]
    simp [hpoint]
  · rw [hparent, Covers]
    tauto

theorem covers_self (path : List Char) : Covers path path := .inl rfl

theorem Covers.length_le (h : Covers point path) (hpath : path ≠ []) :
    point.length ≤ path.length := by
  rcases h with rfl | rfl | hfront
  · exact le_rfl
  · exact List.length_pos_iff.mpr hpath
  · have hlength := hfront.length_le
    simp at hlength
    omega

/-- The only directory at or above a path that is as long is the path. -/
theorem Covers.eq_of_length (h : Covers point path) (hpath : path.head? = some '/')
    (hlength : path.length ≤ point.length) : point = path := by
  rcases h with rfl | rfl | hfront
  · rfl
  · obtain ⟨rest, rfl⟩ := List.head?_eq_some_iff.mp hpath
    obtain rfl : rest = [] := by simpa using hlength
    rfl
  · have hlonger := hfront.length_le
    simp at hlonger
    omega

theorem reached_iff (hcovers : Covers point (parentPath path)) (hpath : path.head? = some '/')
    (hne : path ≠ ['/']) :
    Reached sh path point ↔ (sh.split path).length = 1 ∧ Reached sh (parentPath path) point := by
  obtain ⟨u, v, -, -, -, hlength⟩ := parentPath_cases hpath hne
  have hparent : parentPath path ≠ [] :=
    List.ne_nil_of_mem (List.mem_of_mem_head? (head_parentPath hpath hne))
  constructor
  · intro h
    refine ⟨h path ?_ (covers_self path) ((hcovers.length_le hparent).trans hlength.le), ?_⟩
    · exact List.ne_nil_of_mem (List.mem_of_mem_head? hpath)
    · intro dir hdir hdircovers
      exact h dir hdir ((covers_iff hdir hpath hne).mpr (.inr hdircovers))
  · rintro ⟨hone, h⟩ dir hdir hdircovers hlonger
    rcases (covers_iff hdir hpath hne).mp hdircovers with rfl | habove
    · exact hone
    · exact h dir hdir habove hlonger

/-- With no mount of the type on a path of one word, the way up goes on from the parent. -/
theorem exists_wanted_iff (hpath : path.head? = some '/') (hroot : path ≠ ['/'])
    (hone : (sh.split path).length = 1)
    (hnone : ∀ m ∈ table, seen m.fstype = fstype → seen m.point ≠ path) :
    (∃ m ∈ table, m.Wanted path fstype ∧ Reached sh path (seen m.point)) ↔
      ∃ m ∈ table, m.Wanted (parentPath path) fstype ∧
        Reached sh (parentPath path) (seen m.point) := by
  constructor
  · rintro ⟨m, hm, ⟨htype, hcovers⟩, hreached⟩
    rcases (covers_iff m.seen_point_ne_nil hpath hroot).mp hcovers with heq | habove
    · exact absurd heq (hnone m hm htype)
    · exact ⟨m, hm, ⟨htype, habove⟩, ((reached_iff habove hpath hroot).mp hreached).2⟩
  · rintro ⟨m, hm, ⟨htype, hcovers⟩, hreached⟩
    refine ⟨m, hm, ⟨htype, ?_⟩, (reached_iff hcovers hpath hroot).mpr ⟨hone, hreached⟩⟩
    exact (covers_iff m.seen_point_ne_nil hpath hroot).mpr (.inr hcovers)

/-- The walk ends, and finds a mount of the type if it gets up to one. -/
theorem walkUp_spec {top : List Char}
    (htable : ∀ m ∈ table, m.Plain sh ∨ m.Passed sh options top fstype)
    (hbelow : ∀ dir ≠ [], Covers dir path → Covers dir top) (hpath : path.head? = some '/')
    (hbacked : Backed table top fstype args) {fuel : ℕ} (hfuel : path.length < fuel) :
    ∃ b, walkUp sh options fstype (table.map Mount.line) fuel path args = some b ∧
      (b = true ↔ ∃ m ∈ table, m.Wanted path fstype ∧ Reached sh path (seen m.point)) := by
  induction fuel generalizing path args with
  | zero => omega
  | succ fuel ih =>
      have hne : path ≠ [] := List.ne_nil_of_mem (List.mem_of_mem_head? hpath)
      rw [walkUp]
      by_cases hone : (sh.split path).length = 1
      · obtain ⟨hnext, hsound, hcomplete⟩ := scanMounts_spec htable (List.Subset.refl table) hne
          (hbelow path hne (covers_self path)) hbacked
        rw [if_pos hone]
        rcases hresult : scanMounts sh options path fstype (table.map Mount.line) args with
          ⟨found, args'⟩
        rw [hresult] at hnext hsound hcomplete
        cases found with
        | true =>
            obtain ⟨m, hm, htype, hpoint⟩ := hsound rfl
            refine ⟨true, rfl, iff_of_true rfl ⟨m, hm, ⟨htype, .inl hpoint⟩, ?_⟩⟩
            intro dir _ hcovers hlonger
            rw [hpoint] at hlonger
            rw [hcovers.eq_of_length hpath hlonger, hone]
        | false =>
            have hnone : ∀ m ∈ table, seen m.fstype = fstype → seen m.point ≠ path := by
              intro m hm htype hpoint
              exact absurd (hcomplete ⟨m, hm, htype, hpoint⟩) Bool.false_ne_true
            by_cases hroot : path = ['/']
            · refine ⟨false, if_pos hroot, ?_⟩
              simp only [Bool.false_eq_true, false_iff, not_exists, not_and]
              rintro m hm ⟨htype, hcovers⟩ -
              rw [hroot, covers_root_iff m.seen_point_ne_nil] at hcovers
              exact hnone m hm htype (hcovers.trans hroot.symm)
            · obtain ⟨u, v, -, -, -, hlength⟩ := parentPath_cases hpath hroot
              obtain ⟨b, hb, hiff⟩ := ih
                (fun dir hdir hcovers =>
                  hbelow dir hdir ((covers_iff hdir hpath hroot).mpr (.inr hcovers)))
                (head_parentPath hpath hroot) hnext (by omega)
              exact ⟨b, (if_neg hroot).trans hb,
                hiff.trans (exists_wanted_iff hpath hroot hone hnone).symm⟩
      · refine ⟨false, if_neg hone, ?_⟩
        simp only [Bool.false_eq_true, false_iff, not_exists, not_and]
        rintro m - ⟨-, hcovers⟩ hreached
        exact hone (hreached path hne (covers_self path) (hcovers.length_le hne))

/-! ## The mount that holds the path -/

/-- The function ends, and answers for the mount that holds the path exactly if the mounts on the
way up agree with that. Of the lines, those that are no mount of the type at or above the path need
not be readable. -/
theorem tcIsFstype_answers_iff (hpath : path.head? = some '/')
    (htable : ∀ m ∈ table, m.Plain sh ∨ m.Passed sh options path fstype) :
    ∃ N b, (∀ fuel, N ≤ fuel →
        tcIsFstype sh options fuel (table.map Mount.line) path fstype = some b) ∧
      ((b = true ↔ ∃ m, Holds table path m ∧ m.fstype = fstype) ↔
        Decides sh table path fstype) := by
  have hbacked : Backed table path fstype [path, fstype] := by
    rintro dir hdir - ⟨htype, hpoint⟩
    -- the arguments of the call have no third
    have hempty : fstype = [] := by simpa using htype.symm
    rw [hempty] at hpoint
    exact absurd hpoint hdir
  have hrun (fuel : ℕ) (hfuel : path.length + 1 ≤ fuel) :
      ∃ b, walkUp sh options fstype (table.map Mount.line) fuel path [path, fstype] = some b ∧
        (b = true ↔ ∃ m ∈ table, m.Wanted path fstype ∧ Reached sh path (seen m.point)) :=
    walkUp_spec htable (fun _ _ hcovers => hcovers) hpath hbacked hfuel
  obtain ⟨b, -, hiff⟩ := hrun _ le_rfl
  refine ⟨path.length + 1, b, fun fuel hfuel => ?_, ?_⟩
  · obtain ⟨b', hb', hiff'⟩ := hrun fuel hfuel
    rw [tcIsFstype, hb', Bool.eq_iff_iff.mpr (hiff'.trans hiff.symm)]
  · rw [hiff]
    constructor
    · intro hagree
      refine ⟨fun m hm hwanted hreached => hagree.mp ⟨m, hm, hwanted, hreached⟩, ?_⟩
      exact fun h hholds htype => hagree.mpr ⟨h, hholds, htype⟩
    · rintro ⟨habove, hfound⟩
      constructor
      · rintro ⟨m, hm, hwanted, hreached⟩
        exact habove m hm hwanted hreached
      · rintro ⟨h, hholds, htype⟩
        exact hfound h hholds htype

/-- For names without blanks and backslashes and directories that are one word: no mount of the type
is at or above the path unless that which holds it is of the type. -/
theorem decides_iff (hseen : ∀ m ∈ table, seen m.point = m.point ∧ seen m.fstype = m.fstype)
    (hword : ∀ dir ≠ [], Covers dir path → (sh.split dir).length = 1) :
    Decides sh table path fstype ↔
      ((∃ m ∈ table, m.fstype = fstype ∧ Covers m.point path) →
        ∃ h, Holds table path h ∧ h.fstype = fstype) := by
  have hwanted (m : Mount) (hm : m ∈ table) :
      m.Wanted path fstype ↔ m.fstype = fstype ∧ Covers m.point path := by
    rw [Mount.Wanted, (hseen m hm).1, (hseen m hm).2]
  have hreached (point : List Char) : Reached sh path point :=
    fun dir hdir hcovers _ => hword dir hdir hcovers
  constructor
  · rintro ⟨habove, -⟩ ⟨m, hm, hcovers⟩
    exact habove m hm ((hwanted m hm).mpr hcovers) (hreached _)
  · intro h
    refine ⟨fun m hm hm' _ => h ⟨m, hm, (hwanted m hm).mp hm'⟩, ?_⟩
    intro holder hholds htype
    exact ⟨holder, hholds.1, (hwanted holder hholds.1).mpr ⟨htype, hholds.2.1⟩, hreached _⟩

/-- In a directory where no word names a file, most lines are plain. -/
theorem plain_plainShell (hdevice : m.device ≠ []) (hfstype : m.fstype ≠ [])
    (hecho : isEchoOption (seen m.device) = false) (hplus : (seen m.device).head? ≠ some '+') :
    m.Plain plainShell :=
  ⟨hdevice, hfstype, fun _ _ => rfl, rfl, hecho, hplus⟩

theorem split_plainShell (hpath : path.all fun c => !isBlank c) {dir : List Char} (hdir : dir ≠ [])
    (hcovers : Covers dir path) : plainShell.split dir = [dir] := by
  have hblank : ∀ c ∈ dir, isBlank c = false := by
    intro c hc
    rcases hcovers with rfl | rfl | hfront
    · simpa using List.all_eq_true.mp hpath c hc
    · rw [List.mem_singleton.mp hc]
      decide
    · simpa using List.all_eq_true.mp hpath c (hfront.subset (List.mem_append_left _ hc))
  rw [Shell.split_of_names fun _ _ => rfl, words_of_forall hdir hblank]

/-- A root over the network, a file system in memory, a disk with a blank in its name and a device
that `set` takes for options. -/
def netRoot : List Mount :=
  [⟨"server:/export".toList, "/".toList, "nfs".toList, "rw".toList, rfl⟩,
    ⟨"none".toList, "/tmp".toList, "tmpfs".toList, "rw".toList, rfl⟩,
    ⟨"/dev/sdb1".toList, "/media/My Disk".toList, "vfat".toList, "rw".toList, rfl⟩,
    ⟨"+share".toList, "/media/share".toList, "fuse".toList, "rw".toList, rfl⟩]

theorem tcIsFstype_answers_home :
    ∃ N b, (∀ fuel, N ≤ fuel → tcIsFstype plainShell (fun args _ => args) fuel
        (netRoot.map Mount.line) "/home/tc".toList "nfs".toList = some b) ∧
      (b = true ↔ ∃ m, Holds netRoot "/home/tc".toList m ∧ m.fstype = "nfs".toList) := by
  have htable : ∀ m ∈ netRoot, m.Plain plainShell ∨
      m.Passed plainShell (fun args _ => args) "/home/tc".toList "nfs".toList := by
    simp only [netRoot, List.forall_mem_cons, List.not_mem_nil, false_imp_iff, implies_true,
      and_true]
    refine ⟨.inl ?_, .inl ?_, .inl ?_, .inr ⟨by decide, fun _ _ _ _ hmatches => hmatches⟩⟩
    · exact plain_plainShell (by decide) (by decide) (by decide) (by decide)
    · exact plain_plainShell (by decide) (by decide) (by decide) (by decide)
    · exact plain_plainShell (by decide) (by decide) (by decide) (by decide)
  obtain ⟨N, b, hrun, hiff⟩ := @tcIsFstype_answers_iff plainShell (fun args _ => args) netRoot
    "/home/tc".toList "nfs".toList rfl htable
  have hholds : ∃ m, Holds netRoot "/home/tc".toList m ∧ m.fstype = "nfs".toList :=
    ⟨_, ⟨List.mem_cons_self, .inr (.inl rfl), by decide⟩, rfl⟩
  refine ⟨N, b, hrun, hiff.mpr ⟨fun _ _ _ _ => hholds, fun _ _ _ => ?_⟩⟩
  refine ⟨_, List.mem_cons_self, by decide, ?_⟩
  intro dir hdir hcovers _
  rw [split_plainShell (by decide) hdir hcovers, List.length_singleton]

/-- The path is on the file system in memory, but the root above it answers. -/
theorem tcIsFstype_answers_root :
    tcIsFstype plainShell (fun args _ => args) 9 (netRoot.map Mount.line) "/tmp/tc".toList
        "nfs".toList = some true ∧
      ¬∃ m, Holds netRoot "/tmp/tc".toList m ∧ m.fstype = "nfs".toList := by
  refine ⟨by decide +kernel, ?_⟩
  rintro ⟨m, ⟨hm, hcovers, hmax⟩, htype⟩
  have htmp := hmax _ (List.mem_cons_of_mem _ List.mem_cons_self) (by decide)
  simp only [netRoot, List.mem_cons, List.not_mem_nil, or_false] at hm
  rcases hm with rfl | rfl | rfl | rfl
  · exact absurd htmp (by decide)
  · exact absurd htype (by decide)
  · exact absurd htype (by decide)
  · exact absurd htype (by decide)

end AutotestClient.Harness
