import AutotestClient.Shared.Except
import AutotestClient.Shared.Words
import AutotestClient.Verification.Ffsb.Termination

/-! # Order and units of the lines

The values of a section are found by their position, and its size only with a unit. So the lines
cannot change places, and what `dup_ffsb_profilefl` writes is not read again. -/

namespace AutotestClient.Ffsb

open Shared (Demand bind_eq_ok)
open Shared.Demand (Nonneg)

variable {line rest key text : Text} {lines : List Text} {secs : List Section} {env : Env}
  {fuel : ℕ} {params : Table}

/-! ## Lines -/

theorem not_mem_of_mem_splitOn {x : Char} {xs l : List Char} (h : l ∈ xs.splitOn x) : x ∉ l := by
  induction xs generalizing l with
  | nil =>
      rw [List.splitOn_nil, List.mem_singleton] at h
      simp [h]
  | cons c xs ih =>
      rw [List.splitOn_cons_eq_if_modifyHead] at h
      split_ifs at h with hc
      · rcases List.mem_cons.mp h with rfl | h
        · simp
        · exact ih h
      · obtain ⟨hd, tl, hsplit⟩ := List.exists_cons_of_ne_nil (List.splitOn_ne_nil x xs)
        rw [hsplit, List.modifyHead_cons] at h
        rcases List.mem_cons.mp h with rfl | h
        · have hhd := ih (l := hd) (by rw [hsplit]; exact List.mem_cons_self)
          have hne : x ≠ c := fun heq => hc (beq_iff_eq.mpr heq.symm)
          exact fun hmem => (List.mem_cons.mp hmem).elim hne hhd
        · exact ih (by rw [hsplit]; exact List.mem_cons_of_mem hd h)

/-- A file of lines, each ended by a newline. -/
theorem splitOn_flatMap_newline (h : ∀ l ∈ lines, '\n' ∉ l) :
    (lines.flatMap (· ++ ['\n'])).splitOn '\n' = lines ++ [[]] := by
  induction lines with
  | nil => rfl
  | cons l lines ih =>
      rw [List.forall_mem_cons] at h
      rw [List.flatMap_cons, List.append_assoc, List.singleton_append,
        List.splitOn_append_cons_self_of_not_mem h.1, ih h.2, List.cons_append]

theorem mem_splitOn_flatMap_newline {l : Text} (hl : l ∈ lines) (hnew : '\n' ∉ l) :
    l ∈ (lines.flatMap (· ++ ['\n'])).splitOn '\n' := by
  induction lines with
  | nil => simp at hl
  | cons c lines ih =>
      rw [List.flatMap_cons, List.append_assoc, List.singleton_append,
        List.splitOn_append_cons_self]
      rcases List.mem_cons.mp hl with rfl | hl
      · rw [List.splitOn_eq_singleton hnew]
        simp
      · exact List.mem_append_right _ (ih hl)

/-! ## Keys -/

theorem after_eq_some (h : after key line = some rest) :
    ∃ blanks, (∀ c ∈ blanks, isSpace c) ∧ line = blanks ++ (key ++ rest) := by
  simp only [after] at h
  split_ifs at h with hkey
  obtain ⟨tail, htail⟩ := List.isPrefixOf_iff_prefix.mp hkey
  rw [← htail, List.drop_left, Option.some.injEq] at h
  refine ⟨line.takeWhile isSpace, fun c hc => List.mem_takeWhile_imp hc, ?_⟩
  rw [← h, htail, List.takeWhile_append_dropWhile]

theorem after_append {blanks : Text} (hblanks : ∀ c ∈ blanks, isSpace c)
    (hkey : ∀ c ∈ (key ++ rest).head?, isSpace c = false) :
    after key (blanks ++ (key ++ rest)) = some rest := by
  have hdrop := (Shared.takeWhile_append_of_head hblanks hkey).2
  simp only [after, hdrop]
  rw [if_pos (List.isPrefixOf_iff_prefix.mpr (List.prefix_append key rest)), List.drop_left]

/-- A line has at most one key. -/
theorem no_other_match {c d : Char} {key key' : Text} {f g : Text → Option Token} {t : Token}
    (hne : c ≠ d) (h : (after (c :: key) line).bind f = some t) :
    (after (d :: key') line).bind g = none := by
  obtain ⟨rest, hafter, -⟩ := Option.bind_eq_some_iff.mp h
  rw [Option.bind_eq_none_iff]
  intro rest' hafter'
  simp only [after] at hafter hafter'
  split_ifs at hafter hafter' with hfront hfront'
  obtain ⟨tail, htail⟩ := List.isPrefixOf_iff_prefix.mp hfront
  obtain ⟨tail', htail'⟩ := List.isPrefixOf_iff_prefix.mp hfront'
  rw [← htail', List.cons_append, List.cons_append, List.cons.injEq] at htail
  exact absurd htail.1 hne

variable {t : Token}

theorem tokens_of_matchHeader (h : matchHeader line = some t) : tokens line = [t] := by
  have hlocation : matchLocation line = none := no_other_match (by decide) h
  have hfiles : matchNumFiles line = none := no_other_match (by decide) h
  have hsize : matchMaxFilesize line = none := no_other_match (by decide) h
  rw [tokens, h, hlocation, hfiles, hsize]
  rfl

theorem tokens_of_matchLocation (h : matchLocation line = some t) : tokens line = [t] := by
  have hheader : matchHeader line = none := no_other_match (by decide) h
  have hfiles : matchNumFiles line = none := no_other_match (by decide) h
  have hsize : matchMaxFilesize line = none := no_other_match (by decide) h
  rw [tokens, hheader, h, hfiles, hsize]
  rfl

theorem tokens_of_matchNumFiles (h : matchNumFiles line = some t) : tokens line = [t] := by
  have hheader : matchHeader line = none := no_other_match (by decide) h
  have hlocation : matchLocation line = none := no_other_match (by decide) h
  have hsize : matchMaxFilesize line = none := no_other_match (by decide) h
  rw [tokens, hheader, hlocation, h, hsize]
  rfl

theorem tokens_of_matchMaxFilesize (h : matchMaxFilesize line = some t) : tokens line = [t] := by
  have hheader : matchHeader line = none := no_other_match (by decide) h
  have hlocation : matchLocation line = none := no_other_match (by decide) h
  have hfiles : matchNumFiles line = none := no_other_match (by decide) h
  rw [tokens, hheader, hlocation, hfiles, h]
  rfl

theorem tokens_of_mem (h : t ∈ tokens line) : tokens line = [t] := by
  have hmem := h
  simp only [tokens, List.mem_append, Option.mem_toList] at hmem
  rcases hmem with ((h | h) | h) | h
  · exact tokens_of_matchHeader h
  · exact tokens_of_matchLocation h
  · exact tokens_of_matchNumFiles h
  · exact tokens_of_matchMaxFilesize h

theorem matchMaxFilesize_of_mem (h : .maxFilesize text ∈ tokens line) :
    matchMaxFilesize line = some (.maxFilesize text) := by
  simp only [tokens, List.mem_append, Option.mem_toList] at h
  rcases h with ((h | h) | h) | h
  · obtain ⟨rest, -, h⟩ := Option.bind_eq_some_iff.mp h
    obtain ⟨digits, -, h⟩ := Option.bind_eq_some_iff.mp h
    dsimp only at h
    split_ifs at h
    cases h
  · obtain ⟨rest, -, h⟩ := Option.bind_eq_some_iff.mp h
    cases h
  · obtain ⟨rest, -, h⟩ := Option.bind_eq_some_iff.mp h
    obtain ⟨digits, -, h⟩ := Option.bind_eq_some_iff.mp h
    cases h
  · exact h

/-- Every text of lines with these tokens can be written with lines of this one. -/
theorem exists_text {usrfl : Text} {ts : List Token} (hne : ts ≠ [])
    (h : ∀ t ∈ ts, t ∈ (usrfl.splitOn '\n').flatMap tokens) :
    ∃ usrfl' : Text, (usrfl'.splitOn '\n').flatMap tokens = ts ∧
      ∀ line ∈ usrfl'.splitOn '\n', line ∈ usrfl.splitOn '\n' := by
  have hline : ∀ t ∈ ts, ∃ line ∈ usrfl.splitOn '\n', tokens line = [t] := by
    intro t ht
    obtain ⟨line, hline, hmem⟩ := List.mem_flatMap.mp (h t ht)
    exact ⟨line, hline, tokens_of_mem hmem⟩
  choose! line hmem htokens using hline
  have hsplit : (['\n'].intercalate (ts.map line)).splitOn '\n' = ts.map line := by
    apply List.splitOn_intercalate
    · intro l hl
      obtain ⟨t, ht, rfl⟩ := List.mem_map.mp hl
      exact not_mem_of_mem_splitOn (hmem t ht)
    · simpa using hne
  refine ⟨['\n'].intercalate (ts.map line), ?_, ?_⟩
  · rw [hsplit, List.flatMap_map]
    calc ts.flatMap (fun t => tokens (line t)) = ts.flatMap fun t => [t] :=
          List.flatMap_congr htokens
      _ = ts := List.flatMap_singleton' ts
  · rw [hsplit]
    intro l hl
    obtain ⟨t, ht, rfl⟩ := List.mem_map.mp hl
    exact hmem t ht

/-! ## Lines in another order -/

/-- The lines of a section after its header. -/
def Section.body (s : Section) : List Token :=
  [.location s.location, .numFiles s.numFiles, .maxFilesize s.maxFilesize.text]

/-- The lines that matter, section by section. -/
inductive Arranged : List Section → List Token → Prop
  | nil : Arranged [] []
  | cons {s : Section} {secs : List Section} {body ts : List Token} (hbody : body.Perm s.body)
      (hsecs : Arranged secs ts) : Arranged (s :: secs) (.header s.fsno :: body ++ ts)

/-- The profile `usrfl` has the sections `secs`, and each gives its three values in any order. -/
structure GivesSections (usrfl : Text) (secs : List Section) : Prop where
  arranged : Arranged secs ((usrfl.splitOn '\n').flatMap tokens)
  numFiles : ∀ line ∈ usrfl.splitOn '\n', (after "num_files=".toList line).isSome →
    (matchNumFiles line).isSome

theorem Arranged.mem_iff {ts : List Token} (h : Arranged secs ts) :
    t ∈ ts ↔ ∃ s ∈ secs, t = .header s.fsno ∨ t ∈ s.body := by
  induction h with
  | nil => simp
  | cons hbody _ ih =>
      simp only [List.cons_append, List.mem_cons, List.mem_append, hbody.mem_iff, ih,
        exists_eq_or_imp, or_assoc]

theorem GivesSections.no_tokens {usrfl : Text} (h : GivesSections usrfl []) :
    (usrfl.splitOn '\n').flatMap tokens = [] := by
  cases hts : (usrfl.splitOn '\n').flatMap tokens with
  | nil => rfl
  | cons t ts =>
      have harranged := h.arranged
      rw [hts] at harranged
      cases harranged

/-- The size comes before the location. -/
def Section.sizeFirst (s : Section) : List Token :=
  .header s.fsno :: [.maxFilesize s.maxFilesize.text, .location s.location, .numFiles s.numFiles]

theorem arranged_sizeFirst (secs : List Section) :
    Arranged secs (secs.flatMap Section.sizeFirst) := by
  induction secs with
  | nil => exact .nil
  | cons s secs ih =>
      rw [List.flatMap_cons, Section.sizeFirst]
      refine .cons ?_ ih
      exact (List.perm_append_comm : ([_] ++ [_, _]).Perm ([_, _] ++ [_]))

/-- A path stands where the available space is looked for. -/
def Displaced (row : List Value) : Prop :=
  ∃ size mntpt avail n, row = [.num size, .path mntpt, .num avail, .num n]

theorem Table.mem_set {k : ℕ} {row : List Value} {d : Table} {e : ℕ × List Value}
    (h : e ∈ Table.set k row d) : e = (k, row) ∨ e ∈ d := by
  induction d with
  | nil => exact .inl (List.mem_singleton.mp h)
  | cons c d ih =>
      rw [Table.set] at h
      split_ifs at h with hk
      · exact (List.mem_cons.mp h).imp_right (List.mem_cons_of_mem c)
      · rcases List.mem_cons.mp h with rfl | h
        · exact .inr List.mem_cons_self
        · exact (ih h).imp_right (List.mem_cons_of_mem c)

theorem scan_sizeFirst (env : Env) (s : Section) {st st' : Scan}
    (hst : ∀ e ∈ st.2, Displaced e.2) (h : s.sizeFirst.foldlM (scan env) st = .ok st') :
    ∀ e ∈ st'.2, Displaced e.2 := by
  simp only [Section.sizeFirst, List.foldlM_cons, List.foldlM_nil, scan, Scan.append, bind,
    Except.bind, pure, Except.pure] at h
  cases hsize : filesize s.maxFilesize.text with
  | error e => simp [hsize] at h
  | ok size =>
      simp only [hsize, Except.ok.injEq, Table.append_set] at h
      subst h
      intro e he
      rcases Table.mem_set he with rfl | he
      · exact ⟨_, _, _, _, rfl⟩
      · exact hst e he

theorem scan_sizeFirst_sections (env : Env) {st st' : Scan} (hst : ∀ e ∈ st.2, Displaced e.2)
    (h : (secs.flatMap Section.sizeFirst).foldlM (scan env) st = .ok st') :
    ∀ e ∈ st'.2, Displaced e.2 := by
  induction secs generalizing st with
  | nil =>
      cases h
      exact hst
  | cons s secs ih =>
      rw [List.flatMap_cons, List.foldlM_append] at h
      cases hs : s.sizeFirst.foldlM (scan env) st with
      | error e =>
          rw [hs] at h
          cases h
      | ok st₁ =>
          rw [hs] at h
          exact ih (scan_sizeFirst env s hst hs) h

theorem visit_displaced {d : Table} (hd : ∀ e ∈ d, Displaced e.2) (fuel k : ℕ) :
    ∃ e, visit fuel d k = .error e := by
  rw [visit]
  cases hrow : d.row? k with
  | none => exact ⟨_, rfl⟩
  | some row =>
      obtain ⟨e, hfind, rfl⟩ := Option.map_eq_some_iff.mp hrow
      obtain ⟨size, mntpt, avail, n, hshape⟩ := hd e (List.mem_of_find?_eq_some hfind)
      rw [hshape]
      exact ⟨_, rfl⟩

theorem Table.mem_inOrder {order : List ℕ} {d : Table} {e : ℕ × List Value}
    (h : e ∈ d.inOrder order) : e ∈ d := by
  obtain ⟨k, -, hfind⟩ := List.mem_filterMap.mp h
  exact List.mem_of_find?_eq_some hfind

/-- With the size first the function fails at the first section. -/
theorem setFfsbParams_sizeFirst {usrfl : Text} {order : List ℕ} (horder : order ≠ [])
    (h : (usrfl.splitOn '\n').flatMap tokens = secs.flatMap Section.sizeFirst) (fuel : ℕ) :
    ∃ e, setFfsbParams fuel env order usrfl = .error e := by
  rw [setFfsbParams, readProfile, h]
  cases hread : (secs.flatMap Section.sizeFirst).foldlM (scan env) (none, []) with
  | error e => exact ⟨e, rfl⟩
  | ok st =>
      have hrows : ∀ e ∈ st.2, Displaced e.2 := scan_sizeFirst_sections env (by simp) hread
      obtain ⟨k, order, rfl⟩ := List.exists_cons_of_ne_nil horder
      obtain ⟨e, he⟩ := visit_displaced (d := st.2.inOrder (k :: order))
        (fun e he => hrows e (Table.mem_inOrder he)) fuel k
      refine ⟨e, ?_⟩
      simp only [bind, Except.bind, List.foldlM_cons, he]

/-- What the sections mean: their values are found by their keys, and a size without a unit is in
bytes. -/
def meant (fuel : ℕ) (env : Env) (order : List ℕ) (secs : List Section) : Except Failure Table :=
  order.foldlM (visit fuel) ((tableOf env.avail (requests env secs)).inOrder order)

/-- Every profile with these sections is read as it is meant. -/
def KeyBased (env : Env) (order : List ℕ) (secs : List Section) : Prop :=
  ∀ usrfl, GivesSections usrfl secs →
    ∃ fuel d, setFfsbParams fuel env order usrfl = .ok d ∧ meant fuel env order secs = .ok d

variable {usrfl : Text} {ds : List (Demand ℕ Text)}

theorem requests_ne_nil (hsecs : secs ≠ []) : requests env secs ≠ [] := by
  induction secs using List.reverseRecOn with
  | nil => exact absurd rfl hsecs
  | append_singleton secs s _ =>
      rw [requests_concat]
      cases requests env secs with
      | nil => simp [put]
      | cons d ds =>
          rw [put]
          split_ifs <;> simp

theorem not_keyBased (h : GivesSections usrfl secs) (hsecs : secs ≠ []) {order : List ℕ}
    (horder : order ≠ []) : ¬KeyBased env order secs := by
  have htokens : secs.flatMap Section.sizeFirst ≠ [] := by
    obtain ⟨s, secs, rfl⟩ := List.exists_cons_of_ne_nil hsecs
    simp [Section.sizeFirst]
  obtain ⟨usrfl', hts, hlines⟩ := @exists_text usrfl _ htokens fun t ht =>
    h.arranged.mem_iff.mpr ((arranged_sizeFirst secs).mem_iff.mp ht)
  intro hkey
  have hgives : GivesSections usrfl' secs :=
    ⟨by rw [hts]; exact arranged_sizeFirst secs, fun l hl => h.numFiles l (hlines l hl)⟩
  obtain ⟨fuel, d, hok, -⟩ := hkey usrfl' hgives
  obtain ⟨e, he⟩ : ∃ e, setFfsbParams fuel env order usrfl' = .error e :=
    setFfsbParams_sizeFirst horder hts fuel
  rw [he] at hok
  cases hok

theorem setFfsbParams_of_no_tokens (h : (usrfl.splitOn '\n').flatMap tokens = []) :
    setFfsbParams fuel env [] usrfl = .ok [] := by
  rw [setFfsbParams, readProfile, h]
  rfl

/-! ## The rewritten profile -/

/-- The file that `dup_ffsb_profilefl` writes is read with success. -/
def Rereads (env env' : Env) (order : List ℕ) (dirnm : ℕ → Text) (usrfl : Text) : Prop :=
  ∃ fuel out, dupFfsbProfilefl fuel env order dirnm usrfl = .ok out ∧
    ∃ fuel' d, setFfsbParams fuel' env' order out = .ok d

theorem newLine_of_no_tokens (htokens : tokens line = [])
    (hfiles : (after "num_files=".toList line).isSome → (matchNumFiles line).isSome)
    (dirnm : Text) (fsno : ℕ) : newLine params dirnm fsno line = .ok line := by
  simp only [tokens, List.append_eq_nil_iff, Option.toList_eq_nil_iff] at htokens
  obtain ⟨⟨⟨-, hlocation⟩, hnum⟩, hsize⟩ := htokens
  rw [hnum] at hfiles
  rw [newLine, hlocation, hsize, if_neg (by simp), if_neg fun h => by simpa using hfiles h,
    if_neg (by simp)]

theorem rewrite_of_no_tokens (h : ∀ line ∈ lines, tokens line = [] ∧
      ((after "num_files=".toList line).isSome → (matchNumFiles line).isSome))
    (dirnm : ℕ → Text) (w : Rewrite) :
    ∃ w', lines.foldlM (rewriteLine params dirnm) w = .ok w' ∧
      w'.sysfl = w.sysfl ++ lines.flatMap (· ++ ['\n']) := by
  induction lines generalizing w with
  | nil => exact ⟨w, rfl, by simp⟩
  | cons line lines ih =>
      rw [List.forall_mem_cons] at h
      rw [List.foldlM_cons, rewriteLine, newLine_of_no_tokens h.1.1 h.1.2]
      simp only [bind, Except.bind, pure, Except.pure]
      obtain ⟨w', hw', hsysfl⟩ := ih h.2 _
      refine ⟨w', hw', ?_⟩
      rw [hsysfl, List.flatMap_cons, ← List.append_assoc, ← List.append_assoc]

theorem rereads_nil {env' : Env} (h : GivesSections usrfl []) (dirnm : ℕ → Text) :
    Rereads env env' [] dirnm usrfl := by
  have htokens := h.no_tokens
  have hline : ∀ line ∈ usrfl.splitOn '\n', tokens line = [] :=
    List.flatMap_eq_nil_iff.mp htokens
  obtain ⟨w, hw, hsysfl⟩ :
      ∃ w, (usrfl.splitOn '\n').foldlM (rewriteLine [] dirnm) ⟨0, 0, []⟩ = .ok w ∧
        w.sysfl = [] ++ (usrfl.splitOn '\n').flatMap (· ++ ['\n']) :=
    rewrite_of_no_tokens (fun line hl => ⟨hline line hl, h.numFiles line hl⟩) dirnm ⟨0, 0, []⟩
  refine ⟨0, w.sysfl, ?_, 0, [], setFfsbParams_of_no_tokens ?_⟩
  · rw [dupFfsbProfilefl, setFfsbParams_of_no_tokens htokens]
    simp only [bind, Except.bind, hw]
    rfl
  · rw [hsysfl, List.nil_append, splitOn_flatMap_newline fun l => not_mem_of_mem_splitOn,
      List.flatMap_append, htokens]
    rfl

theorem rewrite_lines {dirnm : ℕ → Text} {w w' : Rewrite}
    (h : lines.foldlM (rewriteLine params dirnm) w = .ok w') :
    ∃ ls : List Text, w'.sysfl = w.sysfl ++ ls.flatMap (· ++ ['\n']) ∧
      ∀ line ∈ lines, ∃ dir fsno, ∃ l ∈ ls, newLine params dir fsno line = .ok l := by
  induction lines generalizing w with
  | nil =>
      cases h
      exact ⟨[], by simp, by simp⟩
  | cons line lines ih =>
      rw [List.foldlM_cons] at h
      obtain ⟨w₁, hw₁, h⟩ := bind_eq_ok h
      obtain ⟨l, hnew, hw₁⟩ := bind_eq_ok hw₁
      obtain rfl := Except.ok.inj hw₁
      obtain ⟨ls, hsysfl, hls⟩ := ih h
      refine ⟨l :: ls, by simp [hsysfl], List.forall_mem_cons.mpr ⟨?_, ?_⟩⟩
      · exact ⟨_, _, l, List.mem_cons_self, hnew⟩
      · intro line hline
        obtain ⟨dir, fsno, l', hl', hnew'⟩ := hls line hline
        exact ⟨dir, fsno, l', List.mem_cons_of_mem l hl', hnew'⟩

theorem str_natCast (n : ℕ) : (Value.num n).str = Nat.toDigits 10 n := String.toList_ofList

theorem takeWhile_blanks {blanks key : Text} (hblanks : ∀ c ∈ blanks, isSpace c)
    (hkey : '=' ∉ key) : (blanks ++ (key ++ '=' :: rest)).takeWhile (· ≠ '=') = blanks ++ key := by
  rw [← List.append_assoc]
  refine (Shared.takeWhile_ne_append fun hc => ?_).1
  rcases List.mem_append.mp hc with hc | hc
  · exact absurd (hblanks _ hc) (by decide)
  · exact hkey hc

theorem column_size {left : Text → ℤ} {gs : List (Demand ℕ Text)} (hgs : ∀ g ∈ gs, 0 ≤ g.size)
    {fsno : ℕ} {v : Value} (h : column (tableOf left gs) fsno 3 = .ok v) :
    ∃ n : ℕ, v = .num n := by
  rw [column] at h
  cases hrow : (tableOf left gs).row? fsno with
  | none =>
      rw [hrow] at h
      cases h
  | some row =>
      rw [hrow] at h
      obtain ⟨e, hfind, rfl⟩ := Option.map_eq_some_iff.mp hrow
      obtain ⟨g, hg, rfl⟩ := List.mem_map.mp (List.mem_of_find?_eq_some hfind)
      obtain ⟨n, hn⟩ := Int.eq_ofNat_of_zero_le (hgs g hg)
      exact ⟨n, (Except.ok.inj h).symm.trans (congrArg Value.num hn)⟩

/-- The line written for a size has a number without a unit. -/
theorem newLine_maxFilesize {left : Text → ℤ} {gs : List (Demand ℕ Text)}
    (hgs : ∀ g ∈ gs, 0 ≤ g.size) (hline : matchMaxFilesize line = some t) {dir l : Text} {fsno : ℕ}
    (hnew : newLine (tableOf left gs) dir fsno line = .ok l) :
    ∃ n : ℕ, ∃ blanks, (∀ c ∈ blanks, isSpace c) ∧ blanks <+: line ∧
      l = blanks ++ ("max_filesize=".toList ++ Nat.toDigits 10 n) := by
  have hlocation : matchLocation line = none := no_other_match (by decide) hline
  have hfiles : (after "num_files=".toList line).bind (fun _ => some t) = none :=
    no_other_match (by decide) hline
  have hfiles' : after "num_files=".toList line = none := by
    cases hafter : after "num_files=".toList line with
    | none => rfl
    | some rest =>
        rw [hafter] at hfiles
        cases hfiles
  rw [newLine, hlocation, hfiles', hline, if_neg (by simp), if_neg (by simp),
    if_pos Option.isSome_some] at hnew
  obtain ⟨rest, hafter, -⟩ := Option.bind_eq_some_iff.mp hline
  obtain ⟨blanks, hblanks, rfl⟩ := after_eq_some hafter
  obtain ⟨v, hcolumn, hnew⟩ := bind_eq_ok hnew
  obtain ⟨n, rfl⟩ := column_size hgs hcolumn
  have hl := Except.ok.inj hnew
  have hkey : "max_filesize=".toList ++ rest = "max_filesize".toList ++ '=' :: rest := rfl
  rw [str_natCast, hkey, takeWhile_blanks hblanks (by decide), List.append_assoc] at hl
  exact ⟨n, blanks, hblanks, List.prefix_append blanks _, hl.symm⟩

theorem newline_not_mem {blanks : Text} (h : '\n' ∉ blanks) (n : ℕ) :
    '\n' ∉ blanks ++ ("max_filesize=".toList ++ Nat.toDigits 10 n) := by
  simp only [List.mem_append, not_or]
  refine ⟨h, by decide, fun hmem => ?_⟩
  exact absurd (Nat.isDigit_of_mem_toDigits (by decide) (by decide) hmem) (by decide)

theorem digits?_toDigits (n : ℕ) : digits? (Nat.toDigits 10 n) = some (Nat.toDigits 10 n, []) := by
  have hspan : (Nat.toDigits 10 n).span Char.isDigit = (Nat.toDigits 10 n, []) := by
    rw [List.span_eq_takeWhile_dropWhile, List.takeWhile_eq_self_iff.mpr,
      List.dropWhile_eq_nil_iff.mpr]
    · exact fun c hc => Nat.isDigit_of_mem_toDigits (by decide) (by decide) hc
    · exact fun c hc => Nat.isDigit_of_mem_toDigits (by decide) (by decide) hc
  rw [digits?, hspan]
  simp [Nat.toDigits_ne_nil]

theorem mem_tokens_of_digits {blanks : Text} (hblanks : ∀ c ∈ blanks, isSpace c) (n : ℕ) :
    .maxFilesize (Nat.toDigits 10 n) ∈
      tokens (blanks ++ ("max_filesize=".toList ++ Nat.toDigits 10 n)) := by
  have hmatch : matchMaxFilesize (blanks ++ ("max_filesize=".toList ++ Nat.toDigits 10 n)) =
      some (.maxFilesize (Nat.toDigits 10 n)) := by
    have hafter : after "max_filesize=".toList
        (blanks ++ ("max_filesize=".toList ++ Nat.toDigits 10 n)) = some (Nat.toDigits 10 n) :=
      after_append hblanks (by intro c hc; cases hc; decide)
    rw [matchMaxFilesize, hafter]
    simp only [bind, Option.bind, digits?_toDigits]
    simp
  rw [tokens, hmatch]
  simp

theorem filesize_toDigits (n : ℕ) : ∃ e, filesize (Nat.toDigits 10 n) = .error e := by
  let z : Size := {
    digits := Nat.toDigits 10 n
    unit := none
    digits_ne := Nat.toDigits_ne_nil
    isDigit := fun c hc => Nat.isDigit_of_mem_toDigits (by decide) (by decide) hc
    unit_mem := by simp }
  have htext : z.text = Nat.toDigits 10 n := List.append_nil _
  rw [← htext]
  rcases filesize_text_of_none (z := z) rfl with h | h
  · exact ⟨_, h⟩
  · exact ⟨_, h⟩

theorem foldlM_scan_error {ts : List Token} (ht : t ∈ ts)
    (herror : ∀ st, ∃ e, scan env st t = .error e) (st : Scan) :
    ∃ e, ts.foldlM (scan env) st = .error e := by
  induction ts generalizing st with
  | nil => simp at ht
  | cons c ts ih =>
      rw [List.foldlM_cons]
      cases hc : scan env st c with
      | error e => exact ⟨e, rfl⟩
      | ok st' =>
          rcases List.mem_cons.mp ht with rfl | ht
          · obtain ⟨e, he⟩ := herror st
            rw [he] at hc
            cases hc
          · exact ih ht st'

theorem setFfsbParams_of_error {order : List ℕ}
    (ht : t ∈ (usrfl.splitOn '\n').flatMap tokens) (herror : ∀ st, ∃ e, scan env st t = .error e) :
    ∃ e, setFfsbParams fuel env order usrfl = .error e := by
  obtain ⟨e, he⟩ := foldlM_scan_error ht herror (none, [])
  exact ⟨e, by rw [setFfsbParams, readProfile, he]; rfl⟩

/-- The text written for a table of demands has a size without a unit. -/
theorem setFfsbParams_rewritten {env' : Env} {left : Text → ℤ} {gs : List (Demand ℕ Text)}
    (hgs : ∀ g ∈ gs, 0 ≤ g.size)
    (hsize : .maxFilesize text ∈ (usrfl.splitOn '\n').flatMap tokens) {dirnm : ℕ → Text}
    {w : Rewrite} (hw : (usrfl.splitOn '\n').foldlM (rewriteLine (tableOf left gs) dirnm)
      ⟨0, 0, []⟩ = .ok w) (order : List ℕ) :
    ∃ e, setFfsbParams fuel env' order w.sysfl = .error e := by
  obtain ⟨ls, hsysfl, hls⟩ := rewrite_lines hw
  obtain ⟨line, hline, hmem⟩ := List.mem_flatMap.mp hsize
  obtain ⟨dir, fsno, l, hl, hnew⟩ := hls line hline
  obtain ⟨n, blanks, hblanks, hfront, rfl⟩ :=
    newLine_maxFilesize hgs (matchMaxFilesize_of_mem hmem) hnew
  have hnewline := newline_not_mem
    (fun hmem => not_mem_of_mem_splitOn hline (hfront.subset hmem)) n
  have hbad : .maxFilesize (Nat.toDigits 10 n) ∈ (w.sysfl.splitOn '\n').flatMap tokens := by
    rw [hsysfl, List.nil_append]
    exact List.mem_flatMap.mpr
      ⟨_, mem_splitOn_flatMap_newline hl hnewline, mem_tokens_of_digits hblanks n⟩
  apply setFfsbParams_of_error hbad
  intro st
  obtain ⟨e, he⟩ := filesize_toDigits n
  exact ⟨e, by rw [scan, he]; rfl⟩

/-- A file written for a profile with sections is not read again. -/
theorem not_rereads {env' : Env} (havail : ∀ m, 0 ≤ env.avail m) (h : HasSections usrfl secs)
    (hsecs : secs ≠ []) (hperm : ds.Perm (requests env secs)) (dirnm : ℕ → Text) :
    ¬Rereads env env' (ds.map Demand.owner) dirnm usrfl := by
  rintro ⟨fuel, out, hdup, fuel', d, hread⟩
  obtain ⟨params, hparams, hdup⟩ := bind_eq_ok hdup
  obtain ⟨w, hw, hout⟩ := bind_eq_ok hdup
  obtain rfl := Except.ok.inj hout
  by_cases hunit : ∀ s ∈ secs, s.maxFilesize.unit.isSome
  · rw [setFfsbParams_eq_foldlM h hunit hperm] at hparams
    obtain ⟨left, gs, rfl, hgs⟩ := foldlM_visit_ok (nodup_of_perm hperm)
      (fun d hd => nonneg_of_mem_requests (hperm.mem_iff.mp hd)) havail hparams
    obtain ⟨s, secs, rfl⟩ := List.exists_cons_of_ne_nil hsecs
    have hsize : .maxFilesize s.maxFilesize.text ∈ (usrfl.splitOn '\n').flatMap tokens := by
      rw [h]
      simp [Section.tokens]
    obtain ⟨e, he⟩ : ∃ e, setFfsbParams fuel' env' (ds.map Demand.owner) w.sysfl = .error e :=
      setFfsbParams_rewritten hgs hsize hw (ds.map Demand.owner)
    rw [he] at hread
    cases hread
  · obtain ⟨e, -, he⟩ := setFfsbParams_of_none h hunit fuel (ds.map Demand.owner)
    rw [he] at hparams
    cases hparams

/-- A profile is read as it is meant, whatever the order of its lines, and so is the one written
for it, only if it has no sections; even with its lines in the usual order the one written for it
is read only then. -/
theorem profile_layout_iff (env env' : Env) (havail : ∀ m, 0 ≤ env.avail m)
    (h : GivesSections usrfl secs) (hperm : ds.Perm (requests env secs)) (dirnm : ℕ → Text) :
    (KeyBased env (ds.map Demand.owner) secs ∧
        Rereads env env' (ds.map Demand.owner) dirnm usrfl ↔ secs = []) ∧
      (HasSections usrfl secs →
        (Rereads env env' (ds.map Demand.owner) dirnm usrfl ↔ secs = [])) := by
  have hnil (hsecs : secs = []) : ds = [] := by
    subst hsecs
    exact hperm.eq_nil
  have hrereads (hsecs : secs = []) : Rereads env env' (ds.map Demand.owner) dirnm usrfl := by
    rw [hnil hsecs]
    subst hsecs
    exact rereads_nil h dirnm
  refine ⟨⟨fun hboth => ?_, fun hsecs => ⟨?_, hrereads hsecs⟩⟩,
    fun hsections => ⟨fun hre => ?_, hrereads⟩⟩
  · by_contra hsecs
    refine not_keyBased h hsecs ?_ hboth.1
    rw [ne_eq, List.map_eq_nil_iff]
    rintro rfl
    exact requests_ne_nil hsecs hperm.symm.eq_nil
  · intro usrfl' h'
    rw [hnil hsecs]
    subst hsecs
    exact ⟨0, [], setFfsbParams_of_no_tokens h'.no_tokens, rfl⟩
  · by_contra hsecs
    exact not_rereads havail hsections hsecs hperm dirnm hre

/-- One section, with its lines in this order. -/
def sectionProfile (lines : List String) : Text :=
  ['\n'].intercalate ("[filesystem0]".toList :: lines.map String.toList)

/-- The usual order. -/
def usualProfile : Text := sectionProfile ["location=/mnt/a", "num_files=1", "max_filesize=1k"]

/-- Some order of the lines of this section is not read, and neither is the profile that is written
for it. -/
theorem profile_layout_usual :
    ¬(KeyBased twoDisks [0] [⟨0, "/mnt/a".toList, 1, kib '1' rfl⟩] ∧
        Rereads twoDisks twoDisks [0] (fun _ => "qwertzuio".toList) usualProfile) ∧
      ¬Rereads twoDisks twoDisks [0] (fun _ => "qwertzuio".toList) usualProfile := by
  have hsections : HasSections usualProfile [⟨0, "/mnt/a".toList, 1, kib '1' rfl⟩] := by
    decide +kernel
  have hfiles : (usualProfile.splitOn '\n').all fun line =>
      !(after "num_files=".toList line).isSome || (matchNumFiles line).isSome := by decide +kernel
  have hgives : GivesSections usualProfile [⟨0, "/mnt/a".toList, 1, kib '1' rfl⟩] := by
    refine ⟨by rw [hsections]; exact .cons (List.Perm.refl _) .nil, fun line hline hsome => ?_⟩
    have hline := List.all_eq_true.mp hfiles line hline
    rwa [hsome, Bool.not_true, Bool.false_or] at hline
  obtain ⟨hboth, hrereads⟩ := profile_layout_iff twoDisks twoDisks twoDisks_nonneg hgives
    (List.Perm.refl _) fun _ => "qwertzuio".toList
  exact ⟨hboth.not.mpr (List.cons_ne_nil _ _), (hrereads hsections).not.mpr (List.cons_ne_nil _ _)⟩

/-- A section is read with its lines in the usual order, but not with its size first, and the
size that is written for it is not read again. -/
theorem profile_layout_fails :
    HasSections (sectionProfile ["location=/mnt/a", "num_files=1", "max_filesize=1k"])
        [⟨0, "/mnt/a".toList, 1, kib '1' rfl⟩] ∧
      setFfsbParams 9 twoDisks [0]
          (sectionProfile ["location=/mnt/a", "num_files=1", "max_filesize=1k"]) =
        .ok [(0, [.path "/mnt".toList, .num 1976, .num 1, .num 1024])] ∧
      setFfsbParams 9 twoDisks [0]
          (sectionProfile ["max_filesize=1k", "location=/mnt/a", "num_files=1"]) =
        .error .illTyped ∧
      dupFfsbProfilefl 9 twoDisks [0] (fun _ => "qwertzuio".toList)
          (sectionProfile ["location=/mnt/a", "num_files=1", "max_filesize=1k"]) =
        .ok (sectionProfile ["location=/mnt/a/qwertzuio", "num_files=1", "max_filesize=1024", ""]) ∧
      setFfsbParams 9 twoDisks [0]
          (sectionProfile ["location=/mnt/a/qwertzuio", "num_files=1", "max_filesize=1024", ""]) =
        .error .keyError := by
  refine ⟨by decide +kernel, ?_, ?_, ?_, ?_⟩
  · decide +kernel
  · decide +kernel
  · decide +kernel
  · decide +kernel

end AutotestClient.Ffsb
