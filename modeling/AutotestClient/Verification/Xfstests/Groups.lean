import AutotestClient.Model.Xfstests
import AutotestClient.Shared.Once

/-! # Groups and the tests in them

The list of groups is taken from the last line of the file that has a test, whatever the lines
before it list. -/

namespace AutotestClient.Xfstests

open Shared

/-- A line of the file with a test: its number and its groups. -/
structure Listing where
  test : Text
  groups : List Text

def listing? (l : Text) : Option Listing :=
  (matchGroupTestLine l).map fun m => ⟨m.1, words isSpace m.2⟩

/-- The lines with a test, in the order of the file. -/
def listings (file : Text) : List Listing := (linesOf '\n' file).filterMap listing?

/-- The lines that list the group. -/
def listing (file group : Text) : List Listing :=
  (listings file).filter fun e => e.groups.contains group

/-- Both functions are views of the relation between tests and groups that the file gives. -/
structure Consistent (file : Text) : Prop where
  groups : ∃ gs, getGroups file = .ok gs ∧ gs.Nodup ∧ ∀ g, g ∈ gs ↔ getTestsForGroup file g ≠ []
  nodup : ∀ g, (getTestsForGroup file g).Nodup
  mem : ∀ g t, t ∈ getTestsForGroup file g ↔ ∃ e ∈ listing file g, e.test = t
  order : ∀ g, (getTestsForGroup file g).Sublist ((listing file g).map Listing.test)

/-! ## The tests of a group -/

/-- The tests of a group are marked by their numbers. -/
theorem getTestsForGroup_eq (file group : Text) :
    getTestsForGroup file group = marksAfter Listing.test (fun _ => true) (listing file group) := by
  rw [getTestsForGroup, listing, listings, marksAfter]
  generalize ([] : List Text) = tests
  induction linesOf '\n' file generalizing tests with
  | nil => rfl
  | cons l ls ih =>
      rw [List.foldl_cons, ih, visitTests]
      cases hm : matchGroupTestLine l with
      | none => simp [listing?, hm]
      | some m =>
          have hl : listing? l = some ⟨m.1, words isSpace m.2⟩ := by rw [listing?, hm]; rfl
          rw [List.filterMap_cons_some hl, List.filter_cons]
          by_cases hg : group ∈ words isSpace m.2
          · simp [hg, mark]
          · simp [hg]

theorem getTestsForGroup_ne_nil_iff {file group : Text} :
    getTestsForGroup file group ≠ [] ↔ ∃ e ∈ listings file, group ∈ e.groups := by
  have hmem (t : Text) : t ∈ getTestsForGroup file group ↔
      ∃ e, (e ∈ listings file ∧ group ∈ e.groups) ∧ e.test = t := by
    rw [getTestsForGroup_eq, mem_marksAfter_iff, and_iff_left rfl]
    simp only [listing, List.mem_filter, List.contains_iff_mem]
  constructor
  · intro hne
    obtain ⟨t, ht⟩ := List.exists_mem_of_ne_nil _ hne
    obtain ⟨e, he, -⟩ := (hmem t).mp ht
    exact ⟨e, he⟩
  · rintro ⟨e, he⟩
    exact List.ne_nil_of_mem ((hmem e.test).mpr ⟨e, he, rfl⟩)

/-! ## The groups -/

/-- The groups found are those of the last line that has a test. -/
theorem getGroups_eq (file : Text) :
    getGroups file = .ok (((listings file).getLast?.map Listing.groups).getD []) := by
  rw [getGroups, listings]
  induction linesOf '\n' file using List.reverseRecOn with
  | nil => rfl
  | append_singleton ls l ih =>
      rw [List.foldlM_append, ih, List.filterMap_append]
      cases hm : matchGroupTestLine l with
      | none => simp [listing?, visitGroups, hm, bind, Except.bind, pure, Except.pure]
      | some m => simp [listing?, visitGroups, hm, bind, Except.bind, pure, Except.pure]

/-- The groups and the tests agree exactly if the last line with a test lists every group of the
file, and none twice. -/
theorem groups_consistent_iff (file : Text) :
    Consistent file ↔ ∀ e ∈ (listings file).getLast?,
      e.groups.Nodup ∧ ∀ e' ∈ listings file, e'.groups ⊆ e.groups := by
  constructor
  · intro h e he
    obtain ⟨gs, hgs, hnodup, hmem⟩ := h.groups
    rw [getGroups_eq, Option.mem_def.mp he] at hgs
    obtain rfl := Except.ok.inj hgs
    refine ⟨hnodup, fun e' he' g hg => (hmem g).mpr ?_⟩
    exact getTestsForGroup_ne_nil_iff.mpr ⟨e', he', hg⟩
  · intro h
    refine ⟨⟨_, getGroups_eq file, ?_, fun g => ?_⟩, fun g => ?_, fun g t => ?_, fun g => ?_⟩
    · cases hlast : (listings file).getLast? with
      | none => exact List.nodup_nil
      | some e => exact (h e hlast).1
    · rw [getTestsForGroup_ne_nil_iff]
      cases hlast : (listings file).getLast? with
      | none => simp [List.getLast?_eq_none_iff.mp hlast]
      | some e =>
          constructor
          · intro hg
            exact ⟨e, List.mem_of_getLast? hlast, hg⟩
          · rintro ⟨e', he', hg⟩
            exact (h e hlast).2 e' he' hg
    · rw [getTestsForGroup_eq]
      exact nodup_marksAfter
    · rw [getTestsForGroup_eq, mem_marksAfter_iff, and_iff_left rfl]
    · rw [getTestsForGroup_eq]
      exact marksAfter_sublist

/-- A file whose last test is in all groups. -/
def quickFile : Text := "# groups\n001 quick\n002 auto rw\n003 quick auto rw\n".toList

theorem groups_consistent_quick : Consistent quickFile := by
  refine (groups_consistent_iff quickFile).mpr ?_
  decide +kernel

/-- The group of the first line is lost. -/
theorem groups_not_consistent : ¬Consistent "001 dangerous\n002 auto\n".toList := by
  intro h
  obtain ⟨gs, hgs, -, hmem⟩ := h.groups
  have hgroups : getGroups "001 dangerous\n002 auto\n".toList = .ok ["auto".toList] := by
    decide +kernel
  obtain rfl := Except.ok.inj (hgroups.symm.trans hgs)
  have hlost := (hmem "dangerous".toList).mpr (by decide +kernel)
  exact absurd hlost (by decide)

end AutotestClient.Xfstests
