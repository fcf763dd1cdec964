import AutotestClient.Model.Ffsb
import AutotestClient.Shared.Quota
import Mathlib.Data.List.Induction

/-! # What a profile asks for

A profile whose sections give a location, a number of files and a maximal file size is
read into a table of demands on the mount points. -/

namespace AutotestClient.Ffsb

open Shared (Demand)

/-! ## Sections -/

/-- A size as the pattern accepts it. -/
structure Size where
  digits : Text
  unit : Option Char
  digits_ne : digits ≠ []
  isDigit : ∀ c ∈ digits, c.isDigit
  unit_mem : ∀ c ∈ unit, (bytes c).isSome

namespace Size

def text (z : Size) : Text := z.digits ++ z.unit.toList

/-- A size without a unit is in bytes. -/
def inBytes (z : Size) : ℤ := numeral z.digits * (z.unit.bind bytes).getD 1

end Size

structure Section where
  fsno : ℕ
  location : Text
  numFiles : ℕ
  maxFilesize : Size

namespace Section

/-- The lines of a section that the patterns match. -/
def tokens (s : Section) : List Token :=
  [.header s.fsno, .location s.location, .numFiles s.numFiles, .maxFilesize s.maxFilesize.text]

def demand (env : Env) (s : Section) : Demand ℕ Text :=
  ⟨s.fsno, env.findMntPt s.location, s.numFiles, s.maxFilesize.inBytes⟩

end Section

/-- The profile `usrfl` has the sections `secs`, and each gives its three values in the
order in which they are read. -/
def HasSections (usrfl : Text) (secs : List Section) : Prop :=
  (usrfl.splitOn '\n').flatMap tokens = secs.flatMap Section.tokens

instance (usrfl : Text) (secs : List Section) : Decidable (HasSections usrfl secs) :=
  inferInstanceAs (Decidable (_ = _))

/-- A section given again replaces the earlier one. -/
def put (d : Demand ℕ Text) : List (Demand ℕ Text) → List (Demand ℕ Text)
  | [] => [d]
  | e :: ds => if e.owner = d.owner then d :: ds else e :: put d ds

/-- What the sections of a profile ask for. -/
def requests (env : Env) (secs : List Section) : List (Demand ℕ Text) :=
  secs.foldl (fun ds s => put (s.demand env) ds) []

/-! ## Tables of demands -/

/-- The item of a section whose mount point has `left` bytes. -/
def item (left : Text → ℤ) (d : Demand ℕ Text) : ℕ × List Value :=
  (d.owner, [.path d.pool, .num (left d.pool), .num d.count, .num d.size])

def tableOf (left : Text → ℤ) (ds : List (Demand ℕ Text)) : Table := ds.map (item left)

theorem tableOf_put (left : Text → ℤ) (d : Demand ℕ Text) (ds : List (Demand ℕ Text)) :
    tableOf left (put d ds) = (tableOf left ds).set d.owner (item left d).2 := by
  induction ds with
  | nil => rfl
  | cons e ds ih =>
      simp only [tableOf, put, List.map_cons, Table.set] at ih ⊢
      by_cases h : e.owner = d.owner
      · simp [item, h]
      · simp [item, h, ih]

theorem mem_put {d e : Demand ℕ Text} {ds : List (Demand ℕ Text)} (h : e ∈ put d ds) :
    e = d ∨ e ∈ ds := by
  induction ds with
  | nil => simpa [put] using h
  | cons c ds ih =>
      simp only [put] at h
      split at h
      · rcases List.mem_cons.mp h with rfl | h
        · exact .inl rfl
        · exact .inr (List.mem_cons_of_mem _ h)
      · rcases List.mem_cons.mp h with rfl | h
        · exact .inr List.mem_cons_self
        · exact (ih h).imp_right (List.mem_cons_of_mem _)

/-- Owners stay distinct. -/
theorem nodup_put {d : Demand ℕ Text} {ds : List (Demand ℕ Text)}
    (h : (ds.map Demand.owner).Nodup) : ((put d ds).map Demand.owner).Nodup := by
  induction ds with
  | nil => simp [put]
  | cons e ds ih =>
      rw [List.map_cons, List.nodup_cons] at h
      simp only [put]
      split
      · rename_i he
        rw [List.map_cons, List.nodup_cons, ← he]
        exact h
      · rename_i he
        rw [List.map_cons, List.nodup_cons]
        refine ⟨fun hm => ?_, ih h.2⟩
        obtain ⟨c, hc, hco⟩ := List.mem_map.mp hm
        rcases mem_put hc with rfl | hc
        · exact he hco.symm
        · exact h.1 (List.mem_map.mpr ⟨c, hc, hco⟩)

theorem requests_concat (env : Env) (secs : List Section) (s : Section) :
    requests env (secs ++ [s]) = put (s.demand env) (requests env secs) := by
  simp [requests]

theorem mem_requests {env : Env} {secs : List Section} {d : Demand ℕ Text}
    (h : d ∈ requests env secs) : ∃ s ∈ secs, d = s.demand env := by
  induction secs using List.reverseRecOn with
  | nil => simp [requests] at h
  | append_singleton secs s ih =>
      rw [requests_concat] at h
      rcases mem_put h with rfl | h
      · exact ⟨s, by simp, rfl⟩
      · obtain ⟨s', hs', hd⟩ := ih h
        exact ⟨s', by simp [hs'], hd⟩

theorem nodup_requests (env : Env) (secs : List Section) :
    ((requests env secs).map Demand.owner).Nodup := by
  induction secs using List.reverseRecOn with
  | nil => simp [requests]
  | append_singleton secs s ih =>
      rw [requests_concat]
      exact nodup_put ih

/-! ## Reading the sections -/

theorem Table.append_set (k : ℕ) (row vs : List Value) (d : Table) :
    Table.append k vs (Table.set k row d) = Table.set k (row ++ vs) d := by
  induction d with
  | nil => simp [Table.set, Table.append]
  | cons e d ih =>
      simp only [Table.set]
      by_cases h : e.1 = k
      · simp [h, Table.append]
      · simp [h, Table.append, ih]

theorem bytes_of_isDigit {c : Char} (h : c.isDigit) : bytes c = none := by
  unfold bytes
  split <;> first | rfl | exact absurd h (by decide)

/-- A size with a unit is read as it is meant. -/
theorem filesize_text {z : Size} {u : Char} (h : z.unit = some u) :
    filesize z.text = .ok z.inBytes := by
  obtain ⟨unit, hunit⟩ := Option.isSome_iff_exists.mp (z.unit_mem u h)
  simp [filesize, Size.text, Size.inBytes, h, hunit, z.digits_ne]

/-- One without a unit loses its last digit to the lookup, which fails. -/
theorem filesize_text_of_none {z : Size} (h : z.unit = none) :
    filesize z.text = .error .valueError ∨ filesize z.text = .error .keyError := by
  have hdigit : (bytes (z.digits.getLast z.digits_ne)) = none :=
    bytes_of_isDigit (z.isDigit _ (List.getLast_mem _))
  unfold filesize
  split
  · exact .inl rfl
  · simp [Size.text, h, List.getLast?_eq_some_getLast z.digits_ne, hdigit]

/-- The four lines of a section set its item. -/
theorem scan_section (env : Env) {s : Section} {u : Char} (h : s.maxFilesize.unit = some u)
    (f : Option ℕ) (ds : List (Demand ℕ Text)) :
    s.tokens.foldlM (scan env) (f, tableOf env.avail ds) =
      .ok (some s.fsno, tableOf env.avail (put (s.demand env) ds)) := by
  simp only [Section.tokens, List.foldlM_cons, List.foldlM_nil, scan, Scan.append,
    filesize_text h, bind, Except.bind, pure, Except.pure, Table.append_set, tableOf_put]
  rfl

theorem scan_section_of_none (env : Env) {s : Section} (h : s.maxFilesize.unit = none)
    (st : Scan) :
    ∃ e, e ≠ Failure.outOfFuel ∧ s.tokens.foldlM (scan env) st = .error e := by
  rcases filesize_text_of_none h with he | he
  · refine ⟨.valueError, by decide, ?_⟩
    simp [Section.tokens, scan, Scan.append, he, bind, Except.bind]
  · refine ⟨.keyError, by decide, ?_⟩
    simp [Section.tokens, scan, Scan.append, he, bind, Except.bind]

theorem scan_sections (env : Env) {secs : List Section}
    (h : ∀ s ∈ secs, s.maxFilesize.unit.isSome) :
    ∃ f, (secs.flatMap Section.tokens).foldlM (scan env) (none, []) =
      .ok (f, tableOf env.avail (requests env secs)) := by
  induction secs using List.reverseRecOn with
  | nil => exact ⟨none, rfl⟩
  | append_singleton secs s ih =>
      simp only [List.forall_mem_append, List.forall_mem_singleton] at h
      obtain ⟨f, hf⟩ := ih h.1
      obtain ⟨u, hu⟩ := Option.isSome_iff_exists.mp h.2
      refine ⟨some s.fsno, ?_⟩
      rw [List.flatMap_append, List.foldlM_append, hf, requests_concat, ← scan_section env hu f]
      simp [bind, Except.bind]

/-- The first section whose size has no unit ends the reading. -/
theorem scan_sections_of_none (env : Env) {secs : List Section}
    (h : ¬∀ s ∈ secs, s.maxFilesize.unit.isSome) :
    ∃ e, e ≠ Failure.outOfFuel ∧
      (secs.flatMap Section.tokens).foldlM (scan env) (none, []) = .error e := by
  induction secs using List.reverseRecOn with
  | nil => simp at h
  | append_singleton secs s ih =>
      rw [List.flatMap_append, List.foldlM_append]
      by_cases hsecs : ∀ s ∈ secs, s.maxFilesize.unit.isSome
      · obtain ⟨f, hf⟩ := scan_sections env hsecs
        have hs : s.maxFilesize.unit = none := by
          by_contra hne
          apply h
          rw [List.forall_mem_append, List.forall_mem_singleton]
          exact ⟨hsecs, Option.isSome_iff_ne_none.mpr hne⟩
        rw [hf]
        simpa [bind, Except.bind] using scan_section_of_none env hs _
      · obtain ⟨e, hne, he⟩ := ih hsecs
        exact ⟨e, hne, by rw [he]; rfl⟩

theorem readProfile_eq {env : Env} {usrfl : Text} {secs : List Section}
    (h : HasSections usrfl secs) :
    readProfile env usrfl = (secs.flatMap Section.tokens).foldlM (scan env) (none, []) := by
  rw [readProfile, h]

end AutotestClient.Ffsb
