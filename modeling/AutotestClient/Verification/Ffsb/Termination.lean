import AutotestClient.Verification.Ffsb.Budget

/-! # Termination

The loop that makes the number of files smaller ends unless the files are empty and nothing is
left on the mount point. -/

namespace AutotestClient.Ffsb

open Shared (Demand drain on Lasts LastsAll lastsAll_iff)
open Shared.Demand (Nonneg fitting kept allot)

variable {left : Text → ℤ} {done todo ds : List (Demand ℕ Text)} {d : Demand ℕ Text} {fuel : ℕ}

/-! ## One section -/

/-- Empty files never stay below an empty disk. -/
theorem shrink_stuck {avail : ℤ} (havail : avail ≤ 0) (fuel : ℕ) (n : ℤ) :
    shrink fuel avail 0 n = .error .outOfFuel := by
  induction fuel generalizing n with
  | zero => rfl
  | succ fuel ih => rw [shrink, if_pos (by simpa using havail), ih]

theorem shrink_of_pos {avail : ℤ} (havail : 0 < avail) (fuel : ℕ) (n : ℤ) :
    shrink (fuel + 1) avail 0 n = .ok n := by
  rw [shrink, if_neg (by simpa using havail)]

/-- More steps do not change the result. -/
theorem shrink_mono {avail size n m : ℤ} {fuel fuel' : ℕ}
    (h : shrink fuel avail size n = .ok m) (hle : fuel ≤ fuel') :
    shrink fuel' avail size n = .ok m := by
  induction fuel generalizing n fuel' with
  | zero => cases h
  | succ fuel ih =>
      obtain ⟨fuel', rfl⟩ := Nat.exists_eq_add_of_le' (Nat.one_le_of_lt hle)
      rw [shrink] at h ⊢
      split_ifs at h ⊢ with hge
      · exact ih h (by omega)
      · exact h

theorem shrink_kept (hd : d.Nonneg) {avail : ℤ} (havail : 0 ≤ avail)
    (hlasts : d.size = 0 → 0 < avail) (hfuel : d.count + 2 ≤ fuel) :
    shrink fuel avail d.size d.count = .ok (d.kept avail) := by
  obtain ⟨hcount, hsize⟩ := hd
  rw [kept]
  split_ifs with hzero
  · obtain ⟨fuel, rfl⟩ := Nat.exists_eq_succ_of_ne_zero (n := fuel) (by omega)
    rw [hzero, shrink_of_pos (hlasts hzero)]
  · rw [shrink_eq havail (by omega) (by omega) hfuel, fitting]

/-- With fewer steps the loop ends there, or not at all. -/
theorem shrink_cases (hd : d.Nonneg) {avail : ℤ} (havail : 0 ≤ avail)
    (hlasts : d.size = 0 → 0 < avail) (fuel : ℕ) :
    shrink fuel avail d.size d.count = .ok (d.kept avail) ∨
      shrink fuel avail d.size d.count = .error .outOfFuel := by
  have herror : ∀ fuel n e, shrink fuel avail d.size n = .error e → e = .outOfFuel := by
    intro fuel
    induction fuel with
    | zero =>
        intro n e he
        exact (Except.error.inj he).symm
    | succ fuel ih =>
        intro n e he
        rw [shrink] at he
        split_ifs at he
        exact ih _ e he
  cases hshrink : shrink fuel avail d.size d.count with
  | error e => exact .inr (congrArg _ (herror fuel d.count e hshrink))
  | ok n =>
      have hlarge : shrink (fuel + (d.count + 2).toNat) avail d.size d.count =
          .ok (d.kept avail) := shrink_kept hd havail hlasts (by have := hd.1; omega)
      rw [shrink_mono hshrink (Nat.le_add_right _ _)] at hlarge
      exact .inl hlarge

theorem visit_of_shrink_error (hnodup : ((done ++ d :: todo).map Demand.owner).Nodup)
    {e : Failure} (hshrink : shrink fuel (left d.pool) d.size d.count = .error e) :
    visit fuel (tableOf left (done ++ d :: todo)) d.owner = .error e := by
  rw [visit, row?_tableOf hnodup]
  simp only [item, hshrink, bind, Except.bind]

/-! ## All sections -/

theorem nodup_allot (hnodup : ((done ++ d :: todo).map Demand.owner).Nodup) (avail : ℤ) :
    ((done ++ [d.allot avail] ++ todo).map Demand.owner).Nodup := by
  simpa using hnodup

theorem foldlM_visit_lasts (hnodup : ((done ++ todo).map Demand.owner).Nodup)
    (hnonneg : ∀ d ∈ todo, d.Nonneg) (hleft : ∀ p, 0 ≤ left p) (hlasts : LastsAll left todo)
    (hfuel : ∀ d ∈ todo, d.count + 2 ≤ fuel) :
    ∃ t, (todo.map Demand.owner).foldlM (visit fuel) (tableOf left (done ++ todo)) = .ok t := by
  induction todo generalizing left done with
  | nil => exact ⟨_, rfl⟩
  | cons d todo ih =>
      rw [List.forall_mem_cons] at hnonneg hfuel
      have hshrink := shrink_kept hnonneg.1 (hleft d.pool) hlasts.1 hfuel.1
      rw [List.map_cons, List.foldlM_cons, visit_tableOf_of_shrink hnodup hshrink]
      have hrest := ih (nodup_allot hnodup (left d.pool)) hnonneg.2
        (Shared.drain_nonneg hnonneg.1 hleft) hlasts.2 hfuel.2
      rwa [List.append_assoc, List.singleton_append] at hrest

/-- The first section with empty files on an empty disk is visited for ever. -/
theorem foldlM_visit_stuck (hnodup : ((done ++ todo).map Demand.owner).Nodup)
    (hnonneg : ∀ d ∈ todo, d.Nonneg) (hleft : ∀ p, 0 ≤ left p) (hlasts : ¬LastsAll left todo)
    (fuel : ℕ) :
    (todo.map Demand.owner).foldlM (visit fuel) (tableOf left (done ++ todo)) =
      .error .outOfFuel := by
  induction todo generalizing left done with
  | nil => exact absurd trivial hlasts
  | cons d todo ih =>
      rw [List.forall_mem_cons] at hnonneg
      rw [List.map_cons, List.foldlM_cons]
      by_cases hd : d.size = 0 → 0 < left d.pool
      · rcases shrink_cases hnonneg.1 (hleft d.pool) hd fuel with hshrink | hshrink
        · rw [visit_tableOf_of_shrink hnodup hshrink]
          have hrest := ih (nodup_allot hnodup (left d.pool)) hnonneg.2
            (Shared.drain_nonneg hnonneg.1 hleft) fun h => hlasts ⟨hd, h⟩
          rwa [List.append_assoc, List.singleton_append] at hrest
        · rw [visit_of_shrink_error hnodup hshrink]
          rfl
      · rw [Classical.not_imp, not_lt] at hd
        have hshrink : shrink fuel (left d.pool) d.size d.count = .error .outOfFuel := by
          rw [hd.1]
          exact shrink_stuck hd.2 fuel d.count
        rw [visit_of_shrink_error hnodup hshrink]
        rfl

/-- Whatever the loop returns is a table of demands for files of some size. -/
theorem foldlM_visit_ok (hnodup : ((done ++ todo).map Demand.owner).Nodup)
    (hnonneg : ∀ d ∈ todo, d.Nonneg) (hleft : ∀ p, 0 ≤ left p) {t : Table}
    (h : (todo.map Demand.owner).foldlM (visit fuel) (tableOf left (done ++ todo)) = .ok t) :
    ∃ left' gs, t = tableOf left' (done ++ gs) ∧ ∀ g ∈ gs, 0 ≤ g.size := by
  induction todo generalizing left done with
  | nil =>
      cases h
      exact ⟨left, [], rfl, by simp⟩
  | cons d todo ih =>
      by_cases hlasts : LastsAll left (d :: todo)
      · rw [List.forall_mem_cons] at hnonneg
        rw [List.map_cons, List.foldlM_cons] at h
        rcases shrink_cases hnonneg.1 (hleft d.pool) hlasts.1 fuel with hshrink | hshrink
        · rw [visit_tableOf_of_shrink hnodup hshrink] at h
          obtain ⟨left', gs, rfl, hgs⟩ := ih
            (nodup_allot hnodup (left d.pool)) hnonneg.2
            (Shared.drain_nonneg hnonneg.1 hleft)
            (by rw [List.append_assoc, List.singleton_append]; exact h)
          refine ⟨left', d.allot (left d.pool) :: gs, by simp, ?_⟩
          exact List.forall_mem_cons.mpr
            ⟨Shared.Demand.allot_size_nonneg hnonneg.1 (hleft d.pool), hgs⟩
        · rw [visit_of_shrink_error hnodup hshrink] at h
          cases h
      · rw [foldlM_visit_stuck hnodup hnonneg hleft hlasts fuel] at h
        cases h

theorem nonneg_of_mem_requests {env : Env} {secs : List Section} (hd : d ∈ requests env secs) :
    d.Nonneg := by
  obtain ⟨s, -, rfl⟩ := mem_requests hd
  exact ⟨Int.natCast_nonneg _, Int.mul_nonneg (Int.natCast_nonneg _) (Int.natCast_nonneg _)⟩

/-- The function ends exactly if it never comes to a section with empty files when what is left
on the mount point is nothing. -/
theorem setFfsbParams_terminates_iff (env : Env) (havail : ∀ m, 0 ≤ env.avail m) (usrfl : Text)
    (secs : List Section) (h : HasSections usrfl secs)
    (hunit : ∀ s ∈ secs, s.maxFilesize.unit.isSome) (hperm : ds.Perm (requests env secs)) :
    (∃ fuel, setFfsbParams fuel env (ds.map Demand.owner) usrfl ≠ .error .outOfFuel) ↔
      ∀ m, Lasts (env.avail m) (on m ds) := by
  have hrun := setFfsbParams_eq_foldlM h hunit hperm
  have hnodup := nodup_of_perm hperm
  have hnonneg : ∀ d ∈ ds, d.Nonneg := fun d hd => nonneg_of_mem_requests (hperm.mem_iff.mp hd)
  rw [← lastsAll_iff]
  constructor
  · rintro ⟨fuel, hfuel⟩
    by_contra hlasts
    rw [hrun, foldlM_visit_stuck hnodup hnonneg havail hlasts fuel] at hfuel
    exact hfuel rfl
  · intro hlasts
    obtain ⟨N, hN⟩ := exists_fuel ds
    obtain ⟨t, ht⟩ := foldlM_visit_lasts hnodup hnonneg havail hlasts (hN N le_rfl)
    refine ⟨N, ?_⟩
    rw [hrun, ht]
    simp

theorem twoDisks_nonneg (m : Text) : 0 ≤ twoDisks.avail m := by
  have := twoDisks_avail m
  omega

/-- Two sections on `/mnt` with one file each. -/
def mntProfile (size₀ size₁ : Char) : Text := ['\n'].intercalate
  ["[filesystem0]".toList, "location=/mnt/a".toList, "num_files=1".toList,
    "max_filesize=".toList ++ [size₀, 'k'], "[filesystem1]".toList, "location=/mnt/b".toList,
    "num_files=1".toList, "max_filesize=".toList ++ [size₁, 'k']]

theorem isDigit_zero : '0'.isDigit := rfl

theorem isDigit_three : '3'.isDigit := rfl

def emptyFirst : List Section :=
  [⟨0, "/mnt/a".toList, 1, kib '0' isDigit_zero⟩, ⟨1, "/mnt/b".toList, 1, kib '3' isDigit_three⟩]

def emptyLast : List Section :=
  [⟨0, "/mnt/a".toList, 1, kib '3' isDigit_three⟩, ⟨1, "/mnt/b".toList, 1, kib '0' isDigit_zero⟩]

/-- A section with an empty file that comes first is no problem. -/
theorem setFfsbParams_terminates_emptyFirst :
    ∃ fuel, setFfsbParams fuel twoDisks [0, 1] (mntProfile '0' '3') ≠ .error .outOfFuel := by
  have hprofile : HasSections (mntProfile '0' '3') emptyFirst := by decide +kernel
  refine (setFfsbParams_terminates_iff twoDisks twoDisks_nonneg _ emptyFirst hprofile
    (by decide) (List.Perm.refl _)).mpr fun m => ?_
  have hpool : ∀ d ∈ requests twoDisks emptyFirst, d.pool = "/mnt".toList := by decide +kernel
  by_cases hm : "/mnt".toList = m
  · subst hm
    exact ⟨fun _ => by decide +kernel, fun h => absurd h (by decide +kernel), trivial⟩
  · have hnil : on m (requests twoDisks emptyFirst) = [] :=
      Shared.on_eq_nil_iff.mpr fun d hd hp => hm ((hpool d hd).symm.trans hp)
    rw [hnil]
    trivial

/-- After a section that takes all of `/mnt`, the loop for the empty file does not end. -/
theorem setFfsbParams_loops_emptyLast :
    HasSections (mntProfile '3' '0') emptyLast ∧ (∀ m, 0 ≤ twoDisks.avail m) ∧
      ∀ fuel, setFfsbParams fuel twoDisks [0, 1] (mntProfile '3' '0') = .error .outOfFuel := by
  have hprofile : HasSections (mntProfile '3' '0') emptyLast := by decide +kernel
  refine ⟨hprofile, twoDisks_nonneg, fun fuel => ?_⟩
  have hperm : (requests twoDisks emptyLast).Perm (requests twoDisks emptyLast) := List.Perm.refl _
  rw [show [0, 1] = (requests twoDisks emptyLast).map Demand.owner by decide +kernel,
    setFfsbParams_eq_foldlM hprofile (by decide) hperm]
  refine foldlM_visit_stuck (nodup_of_perm hperm) (fun d hd => nonneg_of_mem_requests hd)
    twoDisks_nonneg (fun hlasts => ?_) fuel
  have hsecond := hlasts.2.1 (by decide +kernel)
  revert hsecond
  decide +kernel

end AutotestClient.Ffsb
