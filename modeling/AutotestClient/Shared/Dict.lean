import Mathlib.Data.List.AList
import Mathlib.Data.List.Induction

/-! # Dictionaries filled one entry after the other -/

namespace AutotestClient.Shared

variable {κ β : Type*} [DecidableEq κ]

/-- `d[k] = v` for each of the entries. -/
def insertAll (entries : List (κ × β)) (d : AList fun _ : κ => β) : AList fun _ : κ => β :=
  entries.foldl (fun d e => d.insert e.1 e.2) d

theorem insertAll_append (entries entries' : List (κ × β)) (d : AList fun _ : κ => β) :
    insertAll (entries ++ entries') d = insertAll entries' (insertAll entries d) :=
  List.foldl_append

theorem insertAll_concat (entries : List (κ × β)) (e : κ × β) (d : AList fun _ : κ => β) :
    insertAll (entries ++ [e]) d = (insertAll entries d).insert e.1 e.2 :=
  insertAll_append entries [e] d

/-- What is there is what was stored last. -/
theorem lookup_insertAll_eq_some_iff_last {entries : List (κ × β)} {k : κ} {v : β} :
    (insertAll entries ∅).lookup k = some v ↔
      ∃ u w, entries = u ++ (k, v) :: w ∧ ∀ e ∈ w, e.1 ≠ k := by
  induction entries using List.reverseRecOn with
  | nil => simp [insertAll]
  | append_singleton entries e ih =>
      rw [insertAll_concat]
      constructor
      · intro hlookup
        by_cases hk : e.1 = k
        · rw [hk, AList.lookup_insert] at hlookup
          refine ⟨entries, [], ?_, List.forall_mem_nil _⟩
          rw [← hk, ← Option.some.inj hlookup]
        · rw [AList.lookup_insert_ne (Ne.symm hk), ih] at hlookup
          obtain ⟨u, w, rfl, hw⟩ := hlookup
          refine ⟨u, w ++ [e], by simp, ?_⟩
          rw [List.forall_mem_append, List.forall_mem_singleton]
          exact ⟨hw, hk⟩
      · rintro ⟨u, w, heq, hw⟩
        cases w using List.reverseRecOn with
        | nil =>
            obtain ⟨rfl, he⟩ := List.append_inj' heq rfl
            obtain rfl := (List.cons.inj he).1
            exact AList.lookup_insert _
        | append_singleton w e' =>
            rw [← List.cons_append, ← List.append_assoc] at heq
            obtain ⟨hentries, he⟩ := List.append_inj' heq rfl
            obtain rfl := (List.cons.inj he).1
            rw [List.forall_mem_append, List.forall_mem_singleton] at hw
            rw [AList.lookup_insert_ne hw.2.symm, ih]
            exact ⟨u, w, hentries, hw.1⟩

/-- Every key with an entry is there, with one of its values. -/
theorem exists_lookup_insertAll {entries : List (κ × β)} {k : κ} {v : β}
    (h : (k, v) ∈ entries) :
    ∃ v', (insertAll entries ∅).lookup k = some v' ∧ (k, v') ∈ entries := by
  induction entries using List.reverseRecOn with
  | nil => cases h
  | append_singleton entries e ih =>
      rw [insertAll_concat]
      by_cases hk : e.1 = k
      · subst hk
        exact ⟨e.2, AList.lookup_insert _, List.mem_append_right _ (List.mem_singleton_self e)⟩
      · have hmem : (k, v) ∈ entries := by
          refine (List.mem_append.mp h).resolve_right fun hlast => hk ?_
          rw [← List.mem_singleton.mp hlast]
        obtain ⟨v', hlookup, hmem'⟩ := ih hmem
        rw [AList.lookup_insert_ne (Ne.symm hk)]
        exact ⟨v', hlookup, List.mem_append_left _ hmem'⟩

/-- If no key has two values, the dictionary has the entries and no others. -/
theorem lookup_insertAll_eq_some_iff {entries : List (κ × β)}
    (h : ∀ e ∈ entries, ∀ e' ∈ entries, e.1 = e'.1 → e.2 = e'.2) {k : κ} {v : β} :
    (insertAll entries ∅).lookup k = some v ↔ (k, v) ∈ entries := by
  constructor
  · intro hlookup
    obtain ⟨u, w, rfl, -⟩ := lookup_insertAll_eq_some_iff_last.mp hlookup
    exact List.mem_append_right u List.mem_cons_self
  · intro hmem
    obtain ⟨v', hlookup, hmem'⟩ := exists_lookup_insertAll hmem
    rw [hlookup]
    exact congrArg some (h _ hmem' _ hmem rfl)

theorem lookup_insertAll (entries : List (κ × β)) (k : κ) :
    (insertAll entries ∅).lookup k =
      ((entries.filter fun e => e.1 = k).getLast?).map Prod.snd := by
  induction entries using List.reverseRecOn with
  | nil => rfl
  | append_singleton entries e ih =>
      rw [insertAll_concat, List.filter_append]
      by_cases hk : e.1 = k
      · subst hk
        simp
      · rw [AList.lookup_insert_ne (Ne.symm hk), ih]
        simp [hk]

/-! ## Genuine entries -/

section Genuine

variable {ι : Type*} (entry : ι → κ × β) (genuine : ι → Prop)

/-- Genuine entries agree, and every other one is replaced later or has the key and the value of a
genuine one. -/
structure Consistent (xs : List ι) : Prop where
  agree : ∀ x ∈ xs, ∀ y ∈ xs, genuine x → genuine y → (entry x).1 = (entry y).1 →
    (entry x).2 = (entry y).2
  replaced : ∀ u x w, xs = u ++ x :: w → ¬genuine x →
    (∃ y ∈ w, (entry y).1 = (entry x).1) ∨ ∃ y ∈ xs, genuine y ∧ entry y = entry x

/-- The dictionary has the genuine entries, and no others. -/
structure Faithful (xs : List ι) (d : AList fun _ : κ => β) : Prop where
  stored : ∀ x ∈ xs, genuine x → d.lookup (entry x).1 = some (entry x).2
  only : ∀ k v, d.lookup k = some v → ∃ x ∈ xs, genuine x ∧ entry x = (k, v)

theorem faithful_insertAll_iff (xs : List ι) :
    Faithful entry genuine xs (insertAll (xs.map entry) ∅) ↔ Consistent entry genuine xs := by
  constructor
  · intro h
    constructor
    · intro x hx y hy hgx hgy hkey
      have hlookup := h.stored x hx hgx
      rw [hkey, h.stored y hy hgy] at hlookup
      exact (Option.some.inj hlookup).symm
    · rintro u x w rfl -
      by_cases hlater : ∃ y ∈ w, (entry y).1 = (entry x).1
      · exact .inl hlater
      · -- nothing replaces the entry, so it is there
        have hlookup : (insertAll ((u ++ x :: w).map entry) ∅).lookup (entry x).1 =
            some (entry x).2 := by
          rw [lookup_insertAll_eq_some_iff_last]
          refine ⟨u.map entry, w.map entry, by simp, ?_⟩
          rw [List.forall_mem_map]
          exact fun y hy hkey => hlater ⟨y, hy, hkey⟩
        exact .inr (h.only _ _ hlookup)
  · intro h
    have hlast (k : κ) (v : β) (hlookup : (insertAll (xs.map entry) ∅).lookup k = some v) :
        ∃ x ∈ xs, genuine x ∧ entry x = (k, v) := by
      rw [lookup_insertAll_eq_some_iff_last] at hlookup
      obtain ⟨u, w, heq, hw⟩ := hlookup
      obtain ⟨u', w', hxs, -, hw'⟩ := List.map_eq_append_iff.mp heq
      obtain ⟨x, w'', rfl, hx, rfl⟩ := List.map_eq_cons_iff.mp hw'
      rw [List.forall_mem_map] at hw
      by_cases hgx : genuine x
      · exact ⟨x, hxs ▸ List.mem_append_right u' List.mem_cons_self, hgx, hx⟩
      · have hnot : ¬∃ y ∈ w'', (entry y).1 = (entry x).1 := by
          rintro ⟨y, hy, hkey⟩
          rw [hx] at hkey
          exact hw y hy hkey
        obtain ⟨y, hy, hgy, heq⟩ := (h.replaced u' x w'' hxs hgx).resolve_left hnot
        exact ⟨y, hy, hgy, heq.trans hx⟩
    refine ⟨fun x hx hgx => ?_, hlast⟩
    have hmem : ((entry x).1, (entry x).2) ∈ xs.map entry := List.mem_map_of_mem hx
    obtain ⟨v, hlookup, -⟩ := exists_lookup_insertAll hmem
    obtain ⟨y, hy, hgy, hentry⟩ := hlast _ _ hlookup
    rw [hlookup, h.agree x hx y hy hgx hgy (congrArg Prod.fst hentry).symm, hentry]

omit [DecidableEq κ] in
theorem consistent_of_forall {xs : List ι} (hgenuine : ∀ x ∈ xs, genuine x)
    (hagree : ∀ x ∈ xs, ∀ y ∈ xs, (entry x).1 = (entry y).1 → (entry x).2 = (entry y).2) :
    Consistent entry genuine xs where
  agree x hx y hy _ _ := hagree x hx y hy
  replaced u x w hxs hnot := by
    subst hxs
    exact absurd (hgenuine x (List.mem_append_right u List.mem_cons_self)) hnot

/-- With an entry that is not genuine the dictionary is the same if the entry is replaced later or
is what is stored without it. -/
theorem lookup_insertAll_filter_iff (genuine : ι → Bool) (xs : List ι) :
    (∀ k, (insertAll (xs.map entry) ∅).lookup k =
        (insertAll ((xs.filter genuine).map entry) ∅).lookup k) ↔
      ∀ u x w, xs = u ++ x :: w → genuine x = false →
        (∃ y ∈ w, (entry y).1 = (entry x).1) ∨
          (insertAll ((xs.filter genuine).map entry) ∅).lookup (entry x).1 = some (entry x).2 := by
  constructor
  · rintro h u x w rfl -
    by_cases hlater : ∃ y ∈ w, (entry y).1 = (entry x).1
    · exact .inl hlater
    · right
      rw [← h, lookup_insertAll_eq_some_iff_last]
      refine ⟨u.map entry, w.map entry, by simp, ?_⟩
      rw [List.forall_mem_map]
      exact fun y hy hkey => hlater ⟨y, hy, hkey⟩
  · intro h k
    cases hlookup : (insertAll (xs.map entry) ∅).lookup k with
    | none =>
        -- a key that is not there has no entry
        cases hgenuine : (insertAll ((xs.filter genuine).map entry) ∅).lookup k with
        | none => rfl
        | some v =>
            obtain ⟨u, w, heq, -⟩ := lookup_insertAll_eq_some_iff_last.mp hgenuine
            have hmem : (k, v) ∈ (xs.filter genuine).map entry := by simp [heq]
            obtain ⟨x, hx, hentry⟩ := List.mem_map.mp hmem
            have hmem' : (k, v) ∈ xs.map entry :=
              List.mem_map.mpr ⟨x, List.mem_of_mem_filter hx, hentry⟩
            obtain ⟨v', hlookup', -⟩ := exists_lookup_insertAll hmem'
            rw [hlookup] at hlookup'
            cases hlookup'
    | some v =>
        obtain ⟨u', w', heq, hw⟩ := lookup_insertAll_eq_some_iff_last.mp hlookup
        obtain ⟨u, w, rfl, -, hrest⟩ := List.map_eq_append_iff.mp heq
        obtain ⟨x, w, rfl, hx, rfl⟩ := List.map_eq_cons_iff.mp hrest
        rw [List.forall_mem_map] at hw
        symm
        cases hgenuine : genuine x with
        | true =>
            rw [lookup_insertAll_eq_some_iff_last]
            refine ⟨(u.filter genuine).map entry, (w.filter genuine).map entry, ?_, ?_⟩
            · simp [hgenuine, hx]
            · rw [List.forall_mem_map]
              exact fun y hy => hw y (List.mem_of_mem_filter hy)
        | false =>
            have hnot : ¬∃ y ∈ w, (entry y).1 = (entry x).1 := by
              rintro ⟨y, hy, hkey⟩
              rw [hx] at hkey
              exact hw y hy hkey
            have hstored := (h u x w rfl hgenuine).resolve_left hnot
            rwa [hx] at hstored

end Genuine

end AutotestClient.Shared
