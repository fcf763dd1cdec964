import AutotestClient.Verification.Ffsb.Profile

/-! # The disk budget

On a table of demands the loop over the sections serves the demands in the order of
iteration. -/

namespace AutotestClient.Ffsb

open Shared (Demand serve draw drain drain_eq_draw on spent Fits)
open Shared.Demand (Positive Reduces fitting grant kept allot)

/-! ## One section -/

/-- The loop ends at the number of files that stay below the available space. -/
theorem shrink_eq {left size : ℤ} (hleft : 0 ≤ left) (hsize : 0 < size) {fuel : ℕ} {n : ℤ}
    (hn : -1 ≤ n) (hfuel : n + 2 ≤ fuel) :
    shrink fuel left size n = .ok (min n ((left - 1) / size)) := by
  induction fuel generalizing n with
  | zero => omega
  | succ fuel ih =>
      have hdiv : n ≤ (left - 1) / size ↔ n * size ≤ left - 1 := Int.le_ediv_iff_mul_le hsize
      rw [shrink]
      by_cases h : n * size ≥ left
      · have hpos : 0 ≤ n := by
          by_contra hneg
          have : n = -1 := by omega
          subst this
          omega
        rw [if_pos h, ih (by omega) (by push_cast at hfuel; omega)]
        congr 1
        omega
      · rw [if_neg h, min_eq_left (by omega)]

theorem find?_tableOf {left : Text → ℤ} {ds : List (Demand ℕ Text)}
    (hnodup : (ds.map Demand.owner).Nodup) {d : Demand ℕ Text} (hd : d ∈ ds) :
    (tableOf left ds).find? (fun e => e.1 = d.owner) = some (item left d) := by
  induction ds with
  | nil => simp at hd
  | cons c ds ih =>
      rw [List.map_cons, List.nodup_cons] at hnodup
      simp only [tableOf, List.map_cons] at ih ⊢
      rcases List.mem_cons.mp hd with rfl | hd
      · rw [List.find?_cons_of_pos (by simp [item])]
      · have hne : c.owner ≠ d.owner := fun he => hnodup.1 (he ▸ List.mem_map_of_mem hd)
        rw [List.find?_cons_of_neg (by simp [item, hne])]
        exact ih hnodup.2 hd

/-- Putting the items in order puts the demands in order. -/
theorem inOrder_tableOf {left : Text → ℤ} {ds rs : List (Demand ℕ Text)} (hperm : ds.Perm rs)
    (hnodup : (rs.map Demand.owner).Nodup) :
    (tableOf left rs).inOrder (ds.map Demand.owner) = tableOf left ds := by
  have hfind : ∀ d ∈ ds, (tableOf left rs).find? (fun e => e.1 = d.owner) = some (item left d) :=
    fun d hd => find?_tableOf hnodup (hperm.mem_iff.mp hd)
  rw [Table.inOrder, List.filterMap_map]
  exact (List.filterMap_congr hfind).trans (by rw [List.filterMap_eq_map']; rfl)

theorem charge_tableOf (left : Text → ℤ) (p : Text) (cost : ℤ) (ds : List (Demand ℕ Text)) :
    charge (.path p) cost (tableOf left ds) =
      .ok (tableOf (Function.update left p (left p - cost)) ds) := by
  have hitem : ∀ d : Demand ℕ Text, chargeRow (.path p) cost (item left d).2 =
      .ok (item (Function.update left p (left p - cost)) d).2 := by
    intro d
    by_cases h : d.pool = p
    · simp [chargeRow, item, h]
    · simp [chargeRow, item, h]
  induction ds with
  | nil => rfl
  | cons d ds ih =>
      simp only [charge, tableOf, List.map_cons, List.mapM_cons, hitem] at ih ⊢
      rw [ih]
      rfl

theorem put_append {d c : Demand ℕ Text} (hc : c.owner = d.owner) {done : List (Demand ℕ Text)}
    (hdone : ∀ e ∈ done, e.owner ≠ d.owner) (todo : List (Demand ℕ Text)) :
    put d (done ++ c :: todo) = done ++ d :: todo := by
  induction done with
  | nil => simp [put, hc]
  | cons e done ih =>
      rw [List.forall_mem_cons] at hdone
      simp [put, hdone.1, ih hdone.2]

theorem row?_tableOf {left : Text → ℤ} {done todo : List (Demand ℕ Text)} {d : Demand ℕ Text}
    (hnodup : ((done ++ d :: todo).map Demand.owner).Nodup) :
    (tableOf left (done ++ d :: todo)).row? d.owner = some (item left d).2 := by
  rw [Table.row?, find?_tableOf hnodup (by simp)]
  rfl

/-- A visit changes the demand of its section to what the loop leaves of it. -/
theorem visit_tableOf_of_shrink {left : Text → ℤ} {done todo : List (Demand ℕ Text)}
    {d : Demand ℕ Text} (hnodup : ((done ++ d :: todo).map Demand.owner).Nodup) {fuel : ℕ}
    (hshrink : shrink fuel (left d.pool) d.size d.count = .ok (d.kept (left d.pool))) :
    visit fuel (tableOf left (done ++ d :: todo)) d.owner =
      .ok (tableOf (drain left d) (done ++ d.allot (left d.pool) :: todo)) := by
  have hdone : ∀ e ∈ done, e.owner ≠ (d.allot (left d.pool)).owner := by
    intro e he heq
    rw [List.map_append, List.nodup_append] at hnodup
    exact hnodup.2.2 _ (List.mem_map_of_mem he) _ List.mem_cons_self (by simpa using heq)
  have hset : tableOf left (done ++ d.allot (left d.pool) :: todo) =
      (tableOf left (done ++ d :: todo)).set d.owner (item left (d.allot (left d.pool))).2 := by
    have howner := Shared.Demand.allot_owner (left d.pool) d
    rw [← put_append howner.symm hdone todo, tableOf_put, howner]
  rw [drain, ← charge_tableOf, hset, visit, row?_tableOf hnodup]
  simp only [item, hshrink, bind, Except.bind]
  by_cases h : d.kept (left d.pool) = 0
  · rw [if_pos h, allot, if_pos h]
    rfl
  · rw [if_neg h, allot, if_neg h]
    rfl

/-- A visit serves the demand of its section. -/
theorem visit_tableOf {left : Text → ℤ} {done todo : List (Demand ℕ Text)} {d : Demand ℕ Text}
    (hnodup : ((done ++ d :: todo).map Demand.owner).Nodup) (hd : d.Positive)
    (hleft : 0 ≤ left d.pool) {fuel : ℕ} (hfuel : d.count + 2 ≤ fuel) :
    visit fuel (tableOf left (done ++ d :: todo)) d.owner =
      .ok (tableOf (draw left d) (done ++ d.grant (left d.pool) :: todo)) := by
  obtain ⟨hcount, hsize⟩ := hd
  have hshrink : shrink fuel (left d.pool) d.size d.count = .ok (d.kept (left d.pool)) := by
    rw [shrink_eq hleft (by omega) (by omega) hfuel, kept, if_neg (by omega), fitting]
  rw [visit_tableOf_of_shrink hnodup hshrink, drain_eq_draw ⟨hcount, hsize⟩,
    Shared.Demand.allot_eq_grant ⟨hcount, hsize⟩]

/-! ## All sections -/

theorem foldlM_visit_tableOf {left : Text → ℤ} {done todo : List (Demand ℕ Text)}
    (hnodup : ((done ++ todo).map Demand.owner).Nodup) (hpos : ∀ d ∈ todo, d.Positive)
    (hleft : ∀ p, 0 ≤ left p) {fuel : ℕ} (hfuel : ∀ d ∈ todo, d.count + 2 ≤ fuel) :
    (todo.map Demand.owner).foldlM (visit fuel) (tableOf left (done ++ todo)) =
      .ok (tableOf (serve left todo).1 (done ++ (serve left todo).2)) := by
  induction todo generalizing left done with
  | nil => rfl
  | cons d todo ih =>
      rw [List.forall_mem_cons] at hpos hfuel
      rw [List.map_cons, List.foldlM_cons, visit_tableOf hnodup hpos.1 (hleft _) hfuel.1]
      have hnext : ((done ++ [d.grant (left d.pool)] ++ todo).map Demand.owner).Nodup := by
        simpa using hnodup
      have hrest := ih hnext hpos.2 (Shared.draw_nonneg hpos.1 hleft) hfuel.2
      simpa [serve, bind, Except.bind] using hrest

theorem nodup_of_perm {env : Env} {secs : List Section} {ds : List (Demand ℕ Text)}
    (hperm : ds.Perm (requests env secs)) : (([] ++ ds).map Demand.owner).Nodup :=
  (hperm.map _).nodup_iff.mpr (nodup_requests env secs)

/-- On a profile with units, the demands are visited in the order of iteration. -/
theorem setFfsbParams_eq_foldlM {env : Env} {usrfl : Text} {secs : List Section}
    (h : HasSections usrfl secs) (hunit : ∀ s ∈ secs, s.maxFilesize.unit.isSome)
    {ds : List (Demand ℕ Text)} (hperm : ds.Perm (requests env secs)) (fuel : ℕ) :
    setFfsbParams fuel env (ds.map Demand.owner) usrfl =
      (ds.map Demand.owner).foldlM (visit fuel) (tableOf env.avail ([] ++ ds)) := by
  obtain ⟨f, hf⟩ := scan_sections env hunit
  rw [setFfsbParams, readProfile_eq h, hf]
  simp only [bind, Except.bind]
  rw [inOrder_tableOf hperm (nodup_requests env secs)]
  rfl

/-- If there is space everywhere, they are served in that order. -/
theorem setFfsbParams_eq_serve {env : Env} (havail : ∀ m, 1 ≤ env.avail m) {usrfl : Text}
    {secs : List Section} (h : HasSections usrfl secs)
    (hunit : ∀ s ∈ secs, s.maxFilesize.unit.isSome) {ds : List (Demand ℕ Text)}
    (hperm : ds.Perm (requests env secs)) (hpos : ∀ d ∈ ds, d.Positive) {fuel : ℕ}
    (hfuel : ∀ d ∈ ds, d.count + 2 ≤ fuel) :
    setFfsbParams fuel env (ds.map Demand.owner) usrfl =
      .ok (tableOf (serve env.avail ds).1 (serve env.avail ds).2) := by
  have hleft : ∀ m, 0 ≤ env.avail m := fun m => by have := havail m; omega
  rw [setFfsbParams_eq_foldlM h hunit hperm]
  exact foldlM_visit_tableOf (nodup_of_perm hperm) hpos hleft hfuel

/-- A size without a unit ends the function with an exception. -/
theorem setFfsbParams_of_none {env : Env} {usrfl : Text} {secs : List Section}
    (h : HasSections usrfl secs) (hunit : ¬∀ s ∈ secs, s.maxFilesize.unit.isSome)
    (fuel : ℕ) (order : List ℕ) :
    ∃ e, e ≠ Failure.outOfFuel ∧ setFfsbParams fuel env order usrfl = .error e := by
  obtain ⟨e, hne, he⟩ := scan_sections_of_none env hunit
  refine ⟨e, hne, ?_⟩
  rw [setFfsbParams, readProfile_eq h, he]
  rfl

/-! ## The budget -/

/-- The table gives every section at least one file, and to none more files or larger
ones than it asks for, and the files on a mount point take no more than `avail` there. -/
def WithinBudget (avail : Text → ℤ) (asked : List (Demand ℕ Text)) (d : Table) : Prop :=
  ∃ left given, d = tableOf left given ∧ (∀ g ∈ given, 1 ≤ g.count) ∧
    List.Forall₂ Reduces asked given ∧ ∀ m, spent m given ≤ avail m

theorem tableOf_inj {left left' : Text → ℤ} {ds ds' : List (Demand ℕ Text)}
    (h : tableOf left ds = tableOf left' ds') : ds = ds' := by
  induction ds generalizing ds' with
  | nil =>
      cases ds' with
      | nil => rfl
      | cons e ds' => simp [tableOf] at h
  | cons d ds ih =>
      cases ds' with
      | nil => simp [tableOf] at h
      | cons e ds' =>
          simp only [tableOf, List.map_cons, List.cons.injEq] at h
          have hitem := h.1
          simp only [item, Prod.mk.injEq, List.cons.injEq, Value.path.injEq,
            Value.num.injEq, and_true] at hitem
          obtain ⟨howner, hpool, -, hcount, hsize⟩ := hitem
          rw [ih h.2]
          cases d
          cases e
          simp_all

/-- The table of served demands is within the budget exactly if each got a file. -/
theorem withinBudget_serve_iff {avail : Text → ℤ} (havail : ∀ m, 0 ≤ avail m)
    {ds : List (Demand ℕ Text)} (hpos : ∀ d ∈ ds, d.Positive) (left : Text → ℤ) :
    WithinBudget avail ds (tableOf left (serve avail ds).2) ↔
      ∀ g ∈ (serve avail ds).2, 1 ≤ g.count := by
  constructor
  · rintro ⟨left', given, heq, hcount, -, -⟩
    rw [tableOf_inj heq]
    exact hcount
  · intro hcount
    exact ⟨left, _, rfl, hcount, Shared.serve_reduces hpos havail,
      Shared.spent_serve_le hpos havail⟩

theorem positive_of_mem_requests {env : Env} {secs : List Section}
    (hpos : ∀ s ∈ secs, 1 ≤ s.numFiles ∧ 1 ≤ s.maxFilesize.inBytes) {d : Demand ℕ Text}
    (hd : d ∈ requests env secs) : d.Positive := by
  obtain ⟨s, hs, rfl⟩ := mem_requests hd
  obtain ⟨hfiles, hsize⟩ := hpos s hs
  exact ⟨by simp only [Section.demand]; omega, hsize⟩

theorem exists_fuel (ds : List (Demand ℕ Text)) :
    ∃ N : ℕ, ∀ fuel, N ≤ fuel → ∀ d ∈ ds, d.count + 2 ≤ fuel := by
  induction ds with
  | nil => exact ⟨0, by simp⟩
  | cons d ds ih =>
      obtain ⟨N, hN⟩ := ih
      refine ⟨N + (d.count + 2).toNat, fun fuel hfuel => ?_⟩
      rw [List.forall_mem_cons]
      exact ⟨by omega, hN fuel (by omega)⟩

/-- With enough steps the function ends. It returns a table within the budget exactly if
every size has a unit and on every mount point only the last section iterated over asks
for files as large as what is left there. -/
theorem setFfsbParams_withinBudget_iff (env : Env) (havail : ∀ m, 1 ≤ env.avail m)
    (usrfl : Text) (secs : List Section) (h : HasSections usrfl secs)
    (hpos : ∀ s ∈ secs, 1 ≤ s.numFiles ∧ 1 ≤ s.maxFilesize.inBytes)
    (ds : List (Demand ℕ Text)) (hperm : ds.Perm (requests env secs)) :
    ∃ N, ∀ fuel, N ≤ fuel →
      setFfsbParams fuel env (ds.map Demand.owner) usrfl ≠ .error .outOfFuel ∧
      ((∃ d, setFfsbParams fuel env (ds.map Demand.owner) usrfl = .ok d ∧
          WithinBudget env.avail ds d) ↔
        (∀ s ∈ secs, s.maxFilesize.unit.isSome) ∧ ∀ m, Fits (env.avail m) (on m ds)) := by
  obtain ⟨N, hN⟩ := exists_fuel ds
  refine ⟨N, fun fuel hfuel => ?_⟩
  by_cases hunit : ∀ s ∈ secs, s.maxFilesize.unit.isSome
  · have hds : ∀ d ∈ ds, d.Positive :=
      fun d hd => positive_of_mem_requests hpos (hperm.mem_iff.mp hd)
    have hleft : ∀ m, 0 ≤ env.avail m := fun m => by have := havail m; omega
    have hserve := setFfsbParams_eq_serve havail h hunit hperm hds (hN fuel hfuel)
    have hiff := (withinBudget_serve_iff hleft hds (serve env.avail ds).1).trans
      (Shared.serve_count_pos_iff hds fun d _ => havail d.pool)
    rw [hserve, ← hiff, and_iff_right hunit]
    simp
  · obtain ⟨e, hne, he⟩ := setFfsbParams_of_none h hunit fuel (ds.map Demand.owner)
    rw [he]
    exact ⟨by simpa using hne, iff_of_false (by simp) fun hc => hunit hc.1⟩

def kib (digit : Char) (h : digit.isDigit) : Size where
  digits := [digit]
  unit := some 'k'
  digits_ne := by simp
  isDigit := by simpa using h
  unit_mem := by simp [bytes]

/-- A root file system with 5000 bytes and a disk at `/mnt` with 3000. -/
def twoDisks : Env where
  findMntPt path := if "/mnt".toList.isPrefixOf path then "/mnt".toList else "/".toList
  avail m := if m = "/mnt".toList then 3000 else 5000

theorem twoDisks_avail (m : Text) : 1 ≤ twoDisks.avail m := by
  simp only [twoDisks]
  split <;> omega

def threeProfile : Text := ['\n'].intercalate <| List.map String.toList
  ["[filesystem0]", "  location=/home", "  num_files=2", "  max_filesize=1k", "[end0]",
    "[filesystem1]", "  location=/mnt/a", "  num_files=5", "  max_filesize=4k", "[end1]",
    "[filesystem2]", "  location=/var", "  num_files=9", "  max_filesize=2k # 2 KB", "[end2]"]

def threeSections : List Section :=
  [⟨0, "/home".toList, 2, kib '1' rfl⟩, ⟨1, "/mnt/a".toList, 5, kib '4' rfl⟩,
    ⟨2, "/var".toList, 9, kib '2' rfl⟩]

/-- The sections 2 and 0 share the root file system, and 0 is left with less than the
size of its files. -/
theorem setFfsbParams_withinBudget_three :
    ∃ N, ∀ fuel, N ≤ fuel → ∃ d,
      setFfsbParams fuel twoDisks [2, 1, 0] threeProfile = .ok d ∧
        WithinBudget twoDisks.avail (requests twoDisks threeSections).reverse d := by
  have hprofile : HasSections threeProfile threeSections := by decide +kernel
  have hpos : ∀ s ∈ threeSections, 1 ≤ s.numFiles ∧ 1 ≤ s.maxFilesize.inBytes := by decide +kernel
  have hpool : ∀ d ∈ (requests twoDisks threeSections).reverse,
      d.pool = "/mnt".toList ∨ d.pool = "/".toList := by decide +kernel
  have hfits : ∀ m, Fits (twoDisks.avail m) (on m (requests twoDisks threeSections).reverse) := by
    intro m
    by_cases hm : m = "/mnt".toList ∨ m = "/".toList
    · rcases hm with rfl | rfl <;> decide +kernel
    · have hnil : on m (requests twoDisks threeSections).reverse = [] :=
        Shared.on_eq_nil_iff.mpr fun d hd hp => hm (hp ▸ hpool d hd)
      rw [hnil]
      trivial
  obtain ⟨N, hN⟩ := setFfsbParams_withinBudget_iff twoDisks twoDisks_avail threeProfile
    threeSections hprofile hpos _ (List.reverse_perm _)
  exact ⟨N, fun fuel hfuel => (hN fuel hfuel).2.mpr ⟨by decide, hfits⟩⟩

def crowdedProfile : Text := ['\n'].intercalate <| List.map String.toList
  ["[filesystem0]", "  location=/mnt/a", "  num_files=1", "  max_filesize=3k", "[end0]",
    "[filesystem1]", "  location=/mnt/b", "  num_files=1", "  max_filesize=1k", "[end1]"]

def crowdedSections : List Section :=
  [⟨0, "/mnt/a".toList, 1, kib '3' rfl⟩, ⟨1, "/mnt/b".toList, 1, kib '1' rfl⟩]

/-- The first section takes all of `/mnt`, and the second one gets `num_files` -1. -/
theorem setFfsbParams_withinBudget_fails :
    HasSections crowdedProfile crowdedSections ∧
    (∀ s ∈ crowdedSections, 1 ≤ s.numFiles ∧ 1 ≤ s.maxFilesize.inBytes) ∧
    (∀ m, 1 ≤ twoDisks.avail m) ∧
    setFfsbParams 10 twoDisks [0, 1] crowdedProfile = .ok
      [(0, [.path "/mnt".toList, .num 1024, .num 1, .num 3000]),
        (1, [.path "/mnt".toList, .num 1024, .num (-1), .num 1024])] ∧
    ∀ d, setFfsbParams 10 twoDisks [0, 1] crowdedProfile = .ok d →
      ¬WithinBudget twoDisks.avail (requests twoDisks crowdedSections) d := by
  have hprofile : HasSections crowdedProfile crowdedSections := by decide +kernel
  have hpos : ∀ s ∈ crowdedSections, 1 ≤ s.numFiles ∧ 1 ≤ s.maxFilesize.inBytes := by
    decide +kernel
  have hserve : setFfsbParams 10 twoDisks [0, 1] crowdedProfile = _ :=
    setFfsbParams_eq_serve twoDisks_avail hprofile (by decide) (List.Perm.refl _)
      (fun d hd => positive_of_mem_requests hpos hd) (by decide +kernel)
  have htable : tableOf (serve twoDisks.avail (requests twoDisks crowdedSections)).1
      (serve twoDisks.avail (requests twoDisks crowdedSections)).2 =
      tableOf (fun _ => 1024)
        [⟨0, "/mnt".toList, 1, 3000⟩, ⟨1, "/mnt".toList, -1, 1024⟩] := by decide +kernel
  rw [htable] at hserve
  refine ⟨hprofile, hpos, twoDisks_avail, hserve, ?_⟩
  rintro d hd ⟨left, given, rfl, hcount, -, -⟩
  have heq := tableOf_inj (Except.ok.inj (hserve.symm.trans hd))
  rw [← heq] at hcount
  exact absurd (hcount _ (List.mem_cons_of_mem _ List.mem_cons_self)) (by decide)

end AutotestClient.Ffsb
