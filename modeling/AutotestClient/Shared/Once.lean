import Mathlib.Data.List.Induction
import Mathlib.Data.List.Nodup
import Mathlib.Data.List.Pairwise

/-! # Doing something only once

Each call leaves a mark under its key, if the key can be marked, and a call whose key is marked is
a repeat. -/

namespace AutotestClient.Shared

variable {ι κ : Type*} {key : ι → κ} {ok : κ → Bool} {calls : List ι} {i : ι} {k : κ}
  {Same : ι → ι → Prop}

theorem same_of_key (hsame : Equivalence Same)
    (h : calls.Pairwise fun j i =>
      (key j = key i → ok (key i) → Same j i) ∧ (Same j i → ok (key i)))
    {i j : ι} (hi : i ∈ calls) (hj : j ∈ calls) (hkeys : key i = key j) (hok : ok (key j)) :
    Same i j := by
  have hsymm : Std.Symm fun j i => key j = key i → ok (key i) → Same j i :=
    ⟨fun x y hxy hkeys hok => hsame.symm (hxy hkeys.symm (hkeys ▸ hok))⟩
  by_cases hne : i = j
  · exact hne ▸ hsame.refl i
  · exact (h.imp fun hxy => hxy.1).forall hi hj hne hkeys hok

variable [DecidableEq κ]

/-- The marks after one more call. -/
def mark (key : ι → κ) (ok : κ → Bool) (marks : List κ) (i : ι) : List κ :=
  if key i ∈ marks then marks else marks ++ [key i].filter ok

/-- The marks after these calls. -/
def marksAfter (key : ι → κ) (ok : κ → Bool) (calls : List ι) : List κ :=
  calls.foldl (mark key ok) []

theorem marksAfter_concat (calls : List ι) (i : ι) :
    marksAfter key ok (calls ++ [i]) = mark key ok (marksAfter key ok calls) i := by
  rw [marksAfter, List.foldl_append]
  rfl

theorem mem_mark_iff {marks : List κ} :
    k ∈ mark key ok marks i ↔ k ∈ marks ∨ k = key i ∧ ok k := by
  rw [mark]
  split_ifs with hmem
  · constructor
    · exact .inl
    · rintro (h | ⟨rfl, -⟩)
      · exact h
      · exact hmem
  · rw [List.mem_append, List.mem_filter, List.mem_singleton]

theorem mem_marksAfter_iff : k ∈ marksAfter key ok calls ↔ (∃ i ∈ calls, key i = k) ∧ ok k := by
  induction calls using List.reverseRecOn generalizing k with
  | nil => simp [marksAfter]
  | append_singleton calls i ih =>
      rw [marksAfter_concat, mem_mark_iff, ih]
      simp only [List.mem_append, List.mem_singleton]
      constructor
      · rintro (⟨⟨j, hj, hk⟩, hok⟩ | ⟨rfl, hok⟩)
        · exact ⟨⟨j, .inl hj, hk⟩, hok⟩
        · exact ⟨⟨i, .inr rfl, rfl⟩, hok⟩
      · rintro ⟨⟨j, hj | rfl, hk⟩, hok⟩
        · exact .inl ⟨⟨j, hj, hk⟩, hok⟩
        · exact .inr ⟨hk.symm, hok⟩

theorem nodup_marksAfter : (marksAfter key ok calls).Nodup := by
  induction calls using List.reverseRecOn with
  | nil => exact List.nodup_nil
  | append_singleton calls i ih =>
      rw [marksAfter_concat, mark]
      split_ifs with hmem
      · exact ih
      · refine List.nodup_append.mpr ⟨ih, (List.nodup_singleton (key i)).filter _, ?_⟩
        intro k hk k' hk' heq
        obtain rfl := List.mem_singleton.mp (List.mem_filter.mp hk').1
        exact hmem (heq ▸ hk)

/-- The marks are in the order of the calls. -/
theorem marksAfter_sublist : (marksAfter key ok calls).Sublist (calls.map key) := by
  induction calls using List.reverseRecOn with
  | nil => exact List.Sublist.slnil
  | append_singleton calls i ih =>
      rw [marksAfter_concat, mark, List.map_append]
      split_ifs with hmem
      · exact ih.trans (List.sublist_append_left _ _)
      · exact ih.append List.filter_sublist

/-- The marks tell repeats. -/
def MarksRepeats (key : ι → κ) (ok : κ → Bool) (Same : ι → ι → Prop) (calls : List ι) : Prop :=
  ∀ before i after, calls = before ++ i :: after →
    (key i ∈ marksAfter key ok before ↔ ∃ j ∈ before, Same j i)

/-- They do exactly if calls with the same mark are the same, and repeated ones can be marked. -/
theorem marksRepeats_iff (hsame : Equivalence Same) (hkey : ∀ i j, Same i j → key i = key j) :
    MarksRepeats key ok Same calls ↔
      calls.Pairwise fun j i =>
        (key j = key i → ok (key i) → Same j i) ∧ (Same j i → ok (key i)) := by
  constructor
  · intro h
    induction calls using List.reverseRecOn with
    | nil => exact .nil
    | append_singleton calls i ih =>
        have hcalls := ih fun before j after heq => h before j (after ++ [i]) (by simp [heq])
        have hlast := h calls i [] rfl
        rw [mem_marksAfter_iff] at hlast
        refine List.pairwise_append.mpr ⟨hcalls, List.pairwise_singleton _ _, fun j hj => ?_⟩
        rw [List.forall_mem_singleton]
        refine ⟨fun heq hok => ?_, fun hji => (hlast.mpr ⟨j, hj, hji⟩).2⟩
        -- an earlier call that is the same as this one has the key of `j`, too
        obtain ⟨m, hm, hmi⟩ := hlast.mp ⟨⟨j, hj, heq⟩, hok⟩
        have hkeys : key j = key m := heq.trans (hkey m i hmi).symm
        exact hsame.trans (same_of_key hsame hcalls hj hm hkeys (by rwa [← hkeys, heq])) hmi
  · rintro h before i after rfl
    have hpairs := (List.pairwise_append.mp h).2.2
    rw [mem_marksAfter_iff]
    constructor
    · rintro ⟨⟨j, hj, heq⟩, hok⟩
      exact ⟨j, hj, (hpairs j hj i List.mem_cons_self).1 heq hok⟩
    · rintro ⟨j, hj, hsame⟩
      exact ⟨⟨j, hj, hkey j i hsame⟩, (hpairs j hj i List.mem_cons_self).2 hsame⟩

end AutotestClient.Shared
