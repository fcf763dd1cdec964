import AutotestClient.Model.ParallelDd

/-! # The type that is restored

The type that `fstab` gives for the device is stored under a misspelt name and never used, and what
`mtab` gives is that of the first line that `egrep` finds, whatever its device is. -/

namespace AutotestClient.ParallelDd

open Shared (isSpace words words_append_cons)

variable {finds : Text → Text → Bool} {device : Text}

/-- The lines of a table, with device, mount point, type and more fields. -/
structure Table where
  lines : List Text
  fields : ∀ line ∈ lines, 3 ≤ (words isSpace line).length

def deviceField (line : Text) : Option Text := (words isSpace line)[0]?

def typeField (line : Text) : Option Text := (words isSpace line)[2]?

/-- The type that lines give for a device, in the first line of it. -/
def typeOf (device : Text) (lines : List Text) : Option Text :=
  (lines.find? fun line => deviceField line = some device).bind typeField

/-- The type in the first line that `egrep` finds. -/
def typeFound (finds : Text → Text → Bool) (device : Text) (lines : List Text) : Option Text :=
  (lines.find? (finds device)).bind typeField

/-- The type of the device in `mtab`, else in `fstab`, else that of the test. -/
def wanted (mtab fstab : Table) (device fstype : Text) : Text :=
  ((typeOf device mtab.lines).or (typeOf device fstab.lines)).getD fstype

/-- The device is formatted back to the type it had. -/
def Restores (finds : Text → Text → Bool) (device rootFsDevice fstype : Text)
    (mtab fstab : Table) : Prop :=
  ∃ t, initializeTest finds device rootFsDevice fstype mtab.lines fstab.lines = .ok t ∧
    cleanupFstype t = wanted mtab fstab device t.fstype

/-! ## The lookup -/

theorem typeField_append {line rest : Text} (h : 3 ≤ (words isSpace line).length) :
    typeField (line ++ '\n' :: rest) = typeField line := by
  rw [typeField, words_append_cons line rest (by decide), List.getElem?_append_left (by omega)]
  rfl

theorem Table.exists_typeField (t : Table) {line : Text} (hline : line ∈ t.lines) :
    ∃ fstype, typeField line = some fstype :=
  ⟨_, List.getElem?_eq_getElem (by have := t.fields line hline; omega)⟩

/-- The type of the first line that is found. -/
theorem deviceToFstype_eq (t : Table) (fsDevice device : Text) :
    deviceToFstype finds fsDevice t.lines device =
      .ok (typeFound finds (if device = [] then fsDevice else device) t.lines) := by
  rw [deviceToFstype, typeFound, ← List.head?_filter]
  generalize (if device = [] then fsDevice else device) = device
  rw [egrep]
  cases hfound : t.lines.filter (finds device) with
  | nil => rfl
  | cons line lines =>
      have hline : line ∈ t.lines := List.mem_of_mem_filter (hfound ▸ List.mem_cons_self)
      obtain ⟨fstype, htype⟩ := t.exists_typeField hline
      have hfirst : (words isSpace (['\n'].intercalate (line :: lines)))[2]? = some fstype := by
        rw [← htype]
        cases lines with
        | nil => rw [List.intercalate_singleton]; rfl
        | cons next lines =>
            rw [List.intercalate_cons_cons, List.append_assoc]
            exact typeField_append (t.fields line hline)
      simp only [hfirst, List.head?_cons, Option.bind_some, htype]

/-- The type that the test itself uses. -/
def ownFstype (finds : Text → Text → Bool) (device rootFsDevice fstype : Text) (fstab : Table) :
    Text :=
  if fstype = [] then
    (typeFound finds (if rootFsDevice = [] then device else rootFsDevice) fstab.lines).getD fstype
  else fstype

/-- `mtab` alone decides. -/
theorem initializeTest_eq (finds : Text → Text → Bool) (device rootFsDevice fstype : Text)
    (mtab fstab : Table) :
    ∃ t, initializeTest finds device rootFsDevice fstype mtab.lines fstab.lines = .ok t ∧
      t.fstype = ownFstype finds device rootFsDevice fstype fstab ∧
      t.oldFstype = (typeFound finds device mtab.lines).getD t.fstype := by
  rw [initializeTest, deviceToFstype_eq, deviceToFstype_eq mtab, deviceToFstype_eq fstab,
    if_pos rfl]
  cases typeFound finds device mtab.lines with
  | none => exact ⟨_, rfl, rfl, rfl⟩
  | some oldFstype => exact ⟨_, rfl, rfl, rfl⟩

theorem restores_iff_getD (finds : Text → Text → Bool) (device rootFsDevice fstype : Text)
    (mtab fstab : Table) :
    Restores finds device rootFsDevice fstype mtab fstab ↔
      (typeFound finds device mtab.lines).getD (ownFstype finds device rootFsDevice fstype fstab) =
        wanted mtab fstab device (ownFstype finds device rootFsDevice fstype fstab) := by
  obtain ⟨t, hinit, hown, hold⟩ :=
    initializeTest_eq finds device rootFsDevice fstype mtab fstab
  rw [Restores, ← hown, ← hold]
  constructor
  · rintro ⟨t', hinit', h⟩
    obtain rfl := Except.ok.inj (hinit.symm.trans hinit')
    exact h
  · exact fun h => ⟨t, hinit, h⟩

/-! ## The condition -/

/-- A line that `egrep` finds, or that is one of the device. -/
def Related (finds : Text → Text → Bool) (device line : Text) : Prop :=
  finds device line ∨ deviceField line = some device

/-- What the tables are like when the first related line of `mtab` is not a line of the device that
`egrep` finds. -/
structure Restorable (finds : Text → Text → Bool) (device fstype : Text) (mtab fstab : List Text) :
    Prop where
  /-- A line of another device is found first. It has the type that the device has further down. -/
  other_device : ∀ before line after, mtab = before ++ line :: after →
    (∀ l ∈ before, ¬Related finds device l) → finds device line →
    deviceField line ≠ some device →
    typeField line = some (((typeOf device after).or (typeOf device fstab)).getD fstype)
  /-- A line of the device is overlooked. It has the type that is found further down. -/
  overlooked : ∀ before line after, mtab = before ++ line :: after →
    (∀ l ∈ before, ¬Related finds device l) → finds device line = false →
    deviceField line = some device →
    typeField line = some ((typeFound finds device after).getD fstype)
  /-- There is no related line. The first one of the device in `fstab` has the type of the test. -/
  fstab_only : (∀ l ∈ mtab, ¬Related finds device l) →
    ∀ before line after, fstab = before ++ line :: after →
    (∀ l ∈ before, deviceField l ≠ some device) → deviceField line = some device →
    typeField line = some fstype

section Lookup

variable {p : Text → Bool} {lines before after : List Text} {line type own : Text}

theorem find?_append_cons (hbefore : ∀ l ∈ before, p l = false) :
    (before ++ line :: after).find? p = if p line then some line else after.find? p := by
  have hnone : before.find? p = none := List.find?_eq_none.mpr (by simpa using hbefore)
  rw [List.find?_append, hnone, Option.none_or, List.find?_cons]
  cases p line <;> rfl

theorem typeOf_append_cons (hbefore : ∀ l ∈ before, deviceField l ≠ some device) :
    typeOf device (before ++ line :: after) =
      if deviceField line = some device then typeField line else typeOf device after := by
  rw [typeOf, find?_append_cons (by simpa using hbefore)]
  by_cases hown : deviceField line = some device
  · simp [hown]
  · simp [hown, typeOf]

theorem typeFound_append_cons (hbefore : ∀ l ∈ before, finds device l = false) :
    typeFound finds device (before ++ line :: after) =
      if finds device line then typeField line else typeFound finds device after := by
  rw [typeFound, find?_append_cons hbefore]
  cases finds device line <;> rfl

theorem typeOf_eq_none (h : ∀ l ∈ lines, deviceField l ≠ some device) :
    typeOf device lines = none := by
  rw [typeOf, List.find?_eq_none.mpr (by simpa using h)]
  rfl

theorem typeFound_eq_none (h : ∀ l ∈ lines, finds device l = false) :
    typeFound finds device lines = none := by
  rw [typeFound, List.find?_eq_none.mpr (by simpa using h)]
  rfl

theorem forall_not_related :
    (∀ l ∈ lines, ¬Related finds device l) ↔
      (∀ l ∈ lines, finds device l = false) ∧ ∀ l ∈ lines, deviceField l ≠ some device := by
  simp only [Related, not_or, Bool.not_eq_true]
  exact ⟨fun h => ⟨fun l hl => (h l hl).1, fun l hl => (h l hl).2⟩,
    fun h l hl => ⟨h.1 l hl, h.2 l hl⟩⟩

theorem Table.typeField_eq_iff (t : Table) (hline : line ∈ t.lines) :
    typeField line = some type ↔ (typeField line).getD own = type := by
  obtain ⟨type', htype⟩ := t.exists_typeField hline
  simp [htype]

end Lookup

section Restore

variable {mtab fstab : Table} {before after : List Text} {line own : Text}

/-- By the first related line of `mtab`. -/
theorem restored_iff_append_cons (hsplit : mtab.lines = before ++ line :: after)
    (hbefore : ∀ l ∈ before, ¬Related finds device l) (hline : Related finds device line) :
    (typeFound finds device mtab.lines).getD own = wanted mtab fstab device own ↔
      (finds device line → deviceField line ≠ some device →
        typeField line =
          some (((typeOf device after).or (typeOf device fstab.lines)).getD own)) ∧
      (finds device line = false → deviceField line = some device →
        typeField line = some ((typeFound finds device after).getD own)) := by
  have hmem : line ∈ mtab.lines := by simp [hsplit]
  obtain ⟨type, htype⟩ := mtab.exists_typeField hmem
  obtain ⟨hfinds, hdevice⟩ := forall_not_related.mp hbefore
  rw [wanted, hsplit, typeFound_append_cons hfinds, typeOf_append_cons hdevice]
  by_cases hown : deviceField line = some device
  · cases hfound : finds device line with
    | true => simp [hown, htype]
    | false => simp [hown, htype, eq_comm]
  · have hfound : finds device line = true := hline.resolve_right hown
    simp [hown, hfound, htype]

theorem restored_iff_of_not_related (hmtab : ∀ l ∈ mtab.lines, ¬Related finds device l) :
    (typeFound finds device mtab.lines).getD own = wanted mtab fstab device own ↔
      ∀ before line after, fstab.lines = before ++ line :: after →
        (∀ l ∈ before, deviceField l ≠ some device) → deviceField line = some device →
        typeField line = some own := by
  obtain ⟨hfinds, hdevice⟩ := forall_not_related.mp hmtab
  rw [wanted, typeFound_eq_none hfinds, typeOf_eq_none hdevice, Option.none_or, Option.getD_none,
    eq_comm]
  constructor
  · intro h before line after hsplit hbefore hown
    rw [hsplit, typeOf_append_cons hbefore, if_pos hown] at h
    exact (fstab.typeField_eq_iff (by simp [hsplit])).mpr h
  · intro h
    rw [typeOf]
    cases hfirst : fstab.lines.find? fun line => deviceField line = some device with
    | none => rfl
    | some line =>
        obtain ⟨hown, before, after, hsplit, hbefore⟩ := List.find?_eq_some_iff_append.mp hfirst
        have htype := h before line after hsplit (by simpa using hbefore) (by simpa using hown)
        rw [Option.bind_some, htype, Option.getD_some]

end Restore

/-- The device gets its type back exactly for these tables. -/
theorem restores_iff (finds : Text → Text → Bool) (device rootFsDevice fstype : Text)
    (mtab fstab : Table) :
    Restores finds device rootFsDevice fstype mtab fstab ↔
      Restorable finds device (ownFstype finds device rootFsDevice fstype fstab) mtab.lines
        fstab.lines := by
  rw [restores_iff_getD]
  generalize ownFstype finds device rootFsDevice fstype fstab = own
  constructor
  · intro h
    refine ⟨fun before line after hsplit hbefore hfound hother => ?_,
      fun before line after hsplit hbefore hmissed hown => ?_, fun hmtab => ?_⟩
    · exact ((restored_iff_append_cons hsplit hbefore (.inl hfound)).mp h).1 hfound hother
    · exact ((restored_iff_append_cons hsplit hbefore (.inr hown)).mp h).2 hmissed hown
    · exact (restored_iff_of_not_related hmtab).mp h
  · intro h
    by_cases hmtab : ∀ l ∈ mtab.lines, ¬Related finds device l
    · exact (restored_iff_of_not_related hmtab).mpr (h.fstab_only hmtab)
    · simp only [not_forall, not_not] at hmtab
      obtain ⟨l, hl, hrelated⟩ := hmtab
      classical
      obtain ⟨before, line, after, hsplit, hline, hbefore⟩ :=
        Shared.exists_first_separator (p := fun l => decide (Related finds device l))
          ⟨l, hl, decide_eq_true hrelated⟩
      have hbefore : ∀ l ∈ before, ¬Related finds device l := by simpa using hbefore
      have hline : Related finds device line := by simpa using hline
      exact (restored_iff_append_cons hsplit hbefore hline).mpr
        ⟨h.other_device before line after hsplit hbefore,
          h.overlooked before line after hsplit hbefore⟩

/-- A device that is in `fstab` only. -/
theorem restores_not_fstab :
    ¬Restores (fun device line => decide (device <+: line)) "/dev/sdb1".toList "/dev/sda1".toList
      "xfs".toList ⟨["/dev/sda1 / ext3 rw 0 0".toList], by decide⟩
      ⟨["/dev/sda1 / ext3 defaults 1 1".toList, "/dev/sdb1 /data ext4 defaults 1 2".toList],
        by decide⟩ := by
  rw [restores_iff_getD]
  decide

end AutotestClient.ParallelDd
