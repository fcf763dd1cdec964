import AutotestClient.Model.Harness.Lifecycle
import AutotestClient.Shared.Machine
import AutotestClient.Verification.Harness.Reporting
import Mathlib.Data.List.Nodup

/-! # The registries of temporary accounts

`TC_TEMP_USERS` and `TC_TEMP_GROUPS` list the accounts the run created and did not yet
delete. Creation keeps this; the two delete loops keep it under conditions that differ,
because one goes on after a failed command and the other returns. -/

namespace AutotestClient.Harness

open Shared

variable {s s' s'' : State} {r r' r'' : Registry}

/-! ## What the account functions change -/

/-- The two states differ in the console, the results and what concerns accounts. -/
def AccountStep (s s' : State) : Prop :=
  ∃ console results users groups passwd home,
    s' = { s with
      console := console, results := results, users := users, groups := groups
      tempPasswd := passwd, tempHome := home } ∧
    console.stderrIsNull = s.console.stderrIsNull

theorem AccountStep.trans (h : AccountStep s s') (h' : AccountStep s' s'') : AccountStep s s'' := by
  obtain ⟨c, _, _, _, _, _, rfl, hc⟩ := h
  obtain ⟨c', _, _, _, _, _, rfl, hc'⟩ := h'
  exact ⟨_, _, _, _, _, _, rfl, hc'.trans hc⟩

theorem Reports.accountStep (h : Reports s s') : AccountStep s s' := by
  obtain ⟨c, r, rfl, hc⟩ := h
  exact ⟨_, _, _, _, _, _, rfl, hc⟩

/-- The names listed and the names in the database are the same. -/
structure SameNames (r r' : Registry) : Prop where
  listed : r'.listed = r.listed
  database : r'.database = r.database

/-- At most one account was created, and it is listed if it was. -/
inductive Added (r r' : Registry) : Prop where
  | nothing (h : SameNames r r')
  | one (name : String) (hnew : name ∉ r.database) (hlisted : r'.listed = r.listed ++ [name])
      (hdatabase : r'.database = r.database ++ [name])

theorem SameNames.refl (r : Registry) : SameNames r r := ⟨rfl, rfl⟩

theorem SameNames.trans (h : SameNames r r') (h' : SameNames r' r'') : SameNames r r'' :=
  ⟨h'.listed.trans h.listed, h'.database.trans h.database⟩

theorem SameNames.added (h : SameNames r r') (h' : Added r' r'') : Added r r'' := by
  cases h' with
  | nothing h' => exact .nothing (h.trans h')
  | one name hnew hlisted hdatabase =>
      exact .one name (h.database ▸ hnew) (by rw [hlisted, h.listed])
        (by rw [hdatabase, h.database])

/-! ## Creation -/

theorem prints_appendStdout (s : State) (text : String) : Prints s (s.appendStdout text) :=
  ⟨_, rfl, rfl⟩

theorem reports_pollFile (file : String) (n misses : ℕ) (s : State) :
    Reports s (pollFile file n misses s).1 := by
  induction misses generalizing n s with
  | zero => rcases n with - | n <;> exact Reports.refl s
  | succ misses ih =>
      rcases n with - | - | n
      · exact Reports.refl s
      · exact Reports.refl s
      · exact (prints_tcInfo _ s).reports.trans (ih _ _)

theorem reports_tcWaitForFile (file : String) (misses : ℕ) (s : State) :
    Reports s (tcWaitForFile file misses s).1 := by
  simp only [tcWaitForFile]
  generalize (if file ≠ "" then (0 : ℤ) else 1) = rc
  split
  · exact reports_tcBreakIfBadRc _ _ _
  · exact (reports_tcBreakIfBadRc _ _ _).trans (reports_pollFile _ _ _ _)

theorem reports_tcExecutesUseradd (tool : Tool) (s : State) :
    Reports s (tcExecutesUseradd tool s).1 := by
  cases tool with
  | first => exact Reports.refl s
  | second | missing => exact (prints_tcInfo _ s).reports

theorem create_spec (rc : ℕ) (hrc : rc < 256) (name : String) (r : Registry) :
    (r.create rc name).2 < 256 ∧
      ((r.create rc name).2 = 0 ∧ name ∉ r.database ∧
          (r.create rc name).1 = { r with database := r.database ++ [name] } ∨
        (r.create rc name).2 ≠ 0 ∧ (r.create rc name).1 = r) := by
  unfold Registry.create
  split_ifs with h0 hmem
  · exact ⟨hrc, .inr ⟨h0, rfl⟩⟩
  · exact ⟨by simp, .inr ⟨by simp, rfl⟩⟩
  · exact ⟨by simp, .inl ⟨rfl, hmem, rfl⟩⟩

inductive Kind where
  | user | group

def Kind.other : Kind → Kind
  | .user => .group
  | .group => .user

def State.registry (s : State) : Kind → Registry
  | .user => s.users
  | .group => s.groups

/-- A function for accounts of one kind left those of the other kind alone and added at
most one. -/
structure Adds (k : Kind) (s s' : State) : Prop where
  step : AccountStep s s'
  other : s'.registry k.other = s.registry k.other
  names : Added (s.registry k) (s'.registry k)

/-- The same without a new account. -/
structure Keeps (k : Kind) (s s' : State) : Prop where
  step : AccountStep s s'
  other : s'.registry k.other = s.registry k.other
  names : SameNames (s.registry k) (s'.registry k)

variable {k : Kind}

theorem Reports.registry (h : Reports s s') (k : Kind) : s'.registry k = s.registry k := by
  obtain ⟨c, r, rfl, -⟩ := h
  cases k <;> rfl

theorem Reports.keeps (h : Reports s s') : Keeps k s s' :=
  ⟨h.accountStep, h.registry _, h.registry k ▸ SameNames.refl _⟩

theorem Keeps.trans (h : Keeps k s s') (h' : Keeps k s' s'') : Keeps k s s'' :=
  ⟨h.step.trans h'.step, h'.other.trans h.other, h.names.trans h'.names⟩

theorem Keeps.adds (h : Keeps k s s') (h' : Adds k s' s'') : Adds k s s'' :=
  ⟨h.step.trans h'.step, h'.other.trans h.other, h.names.added h'.names⟩

theorem Keeps.addsNothing (h : Keeps k s s') : Adds k s s' :=
  ⟨h.step, h.other, .nothing h.names⟩

theorem Adds.reports (h : Adds k s s') (h' : Reports s' s'') : Adds k s s'' := by
  refine ⟨h.step.trans h'.accountStep, (h'.registry _).trans h.other, ?_⟩
  rw [h'.registry k]
  exact h.names

/-- The command succeeded: the name is new in the database and not yet listed. -/
structure Created (k : Kind) (s s' : State) (name : String) : Prop where
  step : AccountStep s s'
  other : s'.registry k.other = s.registry k.other
  listed : (s'.registry k).listed = (s.registry k).listed
  new : name ∉ (s.registry k).database
  database : (s'.registry k).database = (s.registry k).database ++ [name]

theorem Created.reports {name : String} (h : Created k s s' name) (h' : Reports s' s'') :
    Created k s s'' name :=
  ⟨h.step.trans h'.accountStep, (h'.registry _).trans h.other, by rw [h'.registry k, h.listed],
    h.new, by rw [h'.registry k, h.database]⟩

theorem keepsUsers_chooseUser (name : String) (s : State) :
    Keeps .user s (chooseUser name s).1 := by
  simp only [chooseUser]
  split
  · refine Keeps.trans ?_ (reports_tcBreakIfBadRc _ _ _).keeps
    exact ⟨⟨_, _, _, _, _, _, rfl, rfl⟩, rfl, rfl, rfl⟩
  · exact (Reports.refl s).keeps

/-- An attempt to create an account, followed by the check of its status in a state `t`
that has the registry the command left. -/
theorem create_check {t : State} (a : Answer) (name : String) (ms : List String)
    (hstep : AccountStep s t) (hother : t.registry k.other = s.registry k.other)
    (hreg : t.registry k = ((s.registry k).create a.rc name).1) :
    let result := tcBreakIfBadRc ((s.registry k).create a.rc name).2 ms t
    result.2 = 0 ∧ Created k s result.1 name ∨ result.2 ≠ 0 ∧ Keeps k s result.1 := by
  intro result
  obtain ⟨hlt, hcreate⟩ := create_spec a.rc a.rc_lt name (s.registry k)
  have hcheck := tcBreakIfBadRc_cases ((s.registry k).create a.rc name).2 hlt ms t
  rcases hcreate with ⟨h0, hnew, hnext⟩ | ⟨hne, hnext⟩
  · obtain ⟨-, hresult⟩ := hcheck.resolve_right fun h => h.1 h0
    have heq : result = (t, 0) := hresult
    rw [heq]
    exact .inl ⟨rfl, hstep, hother, by rw [hreg, hnext], hnew, by rw [hreg, hnext]⟩
  · obtain ⟨-, -, hstatus⟩ := hcheck.resolve_left fun h => hne h.1
    have hkeeps : Keeps k s t := ⟨hstep, hother, by rw [hreg, hnext]; exact SameNames.refl _⟩
    have heq : result.2 = ((s.registry k).create a.rc name).2 := hstatus
    exact .inr ⟨by rwa [heq], hkeeps.trans (reports_tcBreakIfBadRc _ ms t).keeps⟩

theorem createUser_cases (a : Answer) (u command : String) (s : State) :
    (createUser a u command s).2 = 0 ∧ Created .user s (createUser a u command s).1 u ∨
      (createUser a u command s).2 ≠ 0 ∧ Keeps .user s (createUser a u command s).1 := by
  let t : State := ({ s with users := (s.users.create a.rc u).1 }).appendStdout a.output
  have hstep : AccountStep s t := ⟨_, _, _, _, _, _, rfl, rfl⟩
  exact create_check (k := .user) a u _ hstep rfl rfl

theorem runUseradd_cases (e : AddUser) (u : String) (s : State) :
    (runUseradd e u s).2 = 0 ∧ Created .user s (runUseradd e u s).1 u ∨
      (runUseradd e u s).2 ≠ 0 ∧ Keeps .user s (runUseradd e u s).1 := by
  unfold runUseradd
  cases e.tool with
  | first => exact createUser_cases e.add u _ s
  | second =>
      rcases createUser_cases e.add u "adduser" s with ⟨h0, hcreated⟩ | ⟨hne, hkeeps⟩
      · simp only [h0, ne_eq, not_true_eq_false, if_false]
        refine .inl ⟨trivial, hcreated.reports ?_⟩
        exact (prints_appendStdout _ _).reports.trans (reports_tcBreakIfBad _ _ _)
      · simp only [hne, ne_eq, not_false_eq_true, if_true]
        exact .inr ⟨trivial, hkeeps⟩
  | missing =>
      exact .inr ⟨by simp [tcBreakIfBadRc_status_one], (reports_tcBreakIfBadRc _ _ _).keeps⟩

/-- A created account that is then listed counts as added. -/
theorem Created.adds {t : State} {name : String} (h : Created k s s' name)
    (hstep : AccountStep s' t) (hother : t.registry k.other = s'.registry k.other)
    (hlisted : (t.registry k).listed = (s'.registry k).listed ++ [name])
    (hdatabase : (t.registry k).database = (s'.registry k).database) : Adds k s t := by
  refine ⟨h.step.trans hstep, hother.trans h.other, .one name h.new ?_ ?_⟩
  · rw [hlisted, h.listed]
  · rw [hdatabase, h.database]

/-- A created user is listed before anything can go wrong again. -/
theorem addsUser_listUser (home : String) {u : String} (h : Created .user s s' u) :
    Adds .user s (listUser home u s') := by
  obtain ⟨c, hinfo, hc⟩ := prints_tcInfo ["created temp user " ++ u ++ "."]
    { s' with users := { s'.users with listed := s'.users.listed ++ [u] } }
  simp only [listUser, hinfo]
  exact h.adds ⟨_, _, _, _, _, _, rfl, hc⟩ rfl rfl rfl

theorem reports_awaitHome (home : String) (misses : ℕ) (s : State) :
    Reports s (awaitHome home misses s).1 := by
  have hwait := reports_tcWaitForFile home misses s
  unfold awaitHome
  split
  · rename_i heq
    rwa [heq] at hwait
  · rename_i heq
    rw [heq] at hwait
    exact hwait.trans (reports_tcBreakIfBadRc _ _ _)

/-- `tc_add_user_or_break` lists exactly what it creates. -/
theorem addsUser_tcAddUserOrBreak (e : AddUser) (name : String) (s : State) :
    Adds .user s (tcAddUserOrBreak e name s).1 := by
  simp only [tcAddUserOrBreak]
  generalize hexist : tcExistOrBreak (if e.passwdExists then [] else ["/etc/passwd"]) s = p1
  have h1 : Keeps .user s p1.1 := by
    rw [← hexist]
    exact (reports_tcBreakIfBadRc _ _ s).keeps
  split
  · exact h1.addsNothing
  · generalize htool : tcExecutesUseradd e.tool p1.1 = p2
    have h2 : Keeps .user s p2.1 := by
      rw [← htool]
      exact h1.trans (reports_tcExecutesUseradd _ _).keeps
    generalize hbreak : tcBreakIfBad p2.2 ["no support for creating users"] p2.1 = p3
    have h3 : Keeps .user s p3.1 := by
      rw [← hbreak]
      exact h2.trans (reports_tcBreakIfBad _ _ _).keeps
    split
    · exact h3.addsNothing
    · generalize hunset : { p3.1 with
        users := { p3.1.users with temp := none }, tempPasswd := none, tempHome := none } = t
      have h4 : Keeps .user s t := by
        rw [← hunset]
        exact h3.trans ⟨⟨_, _, _, _, _, _, rfl, rfl⟩, rfl, rfl, rfl⟩
      have h5 := h4.trans (keepsUsers_chooseUser name t)
      split
      · rename_i heq
        rw [heq] at h5
        exact h5.addsNothing
      · rename_i t' u heq
        rw [heq] at h5
        rcases runUseradd_cases e u t' with ⟨h0, hcreated⟩ | ⟨hne, hkeeps⟩
        · rw [if_neg (by simpa using h0)]
          exact (h5.adds (addsUser_listUser e.home hcreated)).reports (reports_awaitHome _ _ _)
        · rw [if_pos hne]
          exact (h5.trans hkeeps).addsNothing

theorem createGroup_cases (a : Answer) (g : String) (s : State) :
    (createGroup a g s).2 = 0 ∧ Created .group s (createGroup a g s).1 g ∨
      (createGroup a g s).2 ≠ 0 ∧ Keeps .group s (createGroup a g s).1 := by
  let t : State := ({ s with groups := (s.groups.create a.rc g).1 }).echo (.text a.output)
  have hstep : AccountStep s t := ⟨_, _, _, _, _, _, rfl, rfl⟩
  exact create_check (k := .group) a g _ hstep rfl rfl

theorem addsGroup_listGroup {g : String} (h : Created .group s s' g) :
    Adds .group s (listGroup g s') := by
  obtain ⟨c, hinfo, hc⟩ := prints_tcInfo ["created temp group " ++ g ++ "."]
    { s' with groups := { s'.groups with listed := s'.groups.listed ++ [g] } }
  simp only [listGroup, hinfo]
  exact h.adds ⟨_, _, _, _, _, _, rfl, hc⟩ rfl rfl rfl

theorem keepsGroups_chooseGroup (name : String) (s : State) :
    Keeps .group s (chooseGroup name s).1 := by
  simp only [chooseGroup]
  split
  · exact (Reports.refl s).keeps
  · refine Keeps.trans ?_ (reports_tcBreakIfBadRc _ _ _).keeps
    exact ⟨⟨_, _, _, _, _, _, rfl, rfl⟩, rfl, rfl, rfl⟩

/-- `tc_add_group_or_break` lists exactly what it creates. -/
theorem addsGroup_tcAddGroupOrBreak (tool : Tool) (a : Answer) (name : String) (s : State) :
    Adds .group s (tcAddGroupOrBreak tool a name s).1 := by
  simp only [tcAddGroupOrBreak]
  generalize (if tool ≠ .missing then (0 : ℤ) else 1) = rc
  generalize hbreak : tcBreakIfBadRc rc
    ["No mechanism to add group. Tried groupadd and addgroup."]
    { s with groups := { s.groups with temp := none } } = p
  have h1 : Keeps .group s p.1 := by
    rw [← hbreak]
    refine Keeps.trans ?_ (reports_tcBreakIfBadRc _ _ _).keeps
    exact ⟨⟨_, _, _, _, _, _, rfl, rfl⟩, rfl, rfl, rfl⟩
  split
  · exact h1.addsNothing
  · have h2 := h1.trans (keepsGroups_chooseGroup name p.1)
    split
    · rename_i heq
      rw [heq] at h2
      exact h2.addsNothing
    · rename_i t g heq
      rw [heq] at h2
      refine h2.adds ?_
      rcases createGroup_cases a g t with ⟨h0, hcreated⟩ | ⟨hne, hkeeps⟩
      · rw [if_neg (by simpa using h0)]
        exact addsGroup_listGroup hcreated
      · rw [if_pos hne]
        exact hkeeps.addsNothing

/-! ## Deletion -/

/-- The accounts a delete function is asked to delete: the named one or all. -/
def targeted (name u : String) : Bool := name = "" ∨ name = u

/-- Accounts of one kind were deleted, `gone` being those, and the list was left alone. -/
structure Deletes (k : Kind) (s s' : State) (gone : String → Prop) : Prop where
  step : AccountStep s s'
  other : s'.registry k.other = s.registry k.other
  listed : (s'.registry k).listed = (s.registry k).listed
  database : ∀ d, d ∈ (s'.registry k).database ↔ d ∈ (s.registry k).database ∧ ¬ gone d

variable {gone gone' : String → Prop}

theorem Keeps.deletes (h : Keeps k s s') (hnone : ∀ d ∈ (s.registry k).database, ¬ gone d) :
    Deletes k s s' gone := by
  refine ⟨h.step, h.other, h.names.listed, fun d => ?_⟩
  rw [h.names.database]
  exact (and_iff_left_of_imp (hnone d)).symm

theorem Deletes.trans (h : Deletes k s s' gone) (h' : Deletes k s' s'' gone') :
    Deletes k s s'' fun d => gone d ∨ gone' d := by
  refine ⟨h.step.trans h'.step, h'.other.trans h.other, h'.listed.trans h.listed, fun d => ?_⟩
  rw [h'.database, h.database, not_or, and_assoc]

theorem Deletes.congr (h : Deletes k s s' gone) (hiff : ∀ d, gone d ↔ gone' d) :
    Deletes k s s' gone' :=
  ⟨h.step, h.other, h.listed, fun d => by rw [h.database, hiff]⟩

theorem Deletes.reports (h : Deletes k s s' gone) (h' : Reports s' s'') :
    Deletes k s s'' gone := by
  refine ⟨h.step.trans h'.accountStep, (h'.registry _).trans h.other, ?_, ?_⟩
  · rw [h'.registry k, h.listed]
  · rw [h'.registry k]
    exact h.database

theorem remove_spec (rc : ℕ) (hrc : rc < 256) (name : String) (r : Registry) :
    (r.remove rc name).2 < 256 ∧
      ((r.remove rc name).2 = 0 ∧ rc = 0 ∧ name ∈ r.database ∧
          (r.remove rc name).1 = { r with database := r.database.filter (· ≠ name) } ∨
        (r.remove rc name).2 ≠ 0 ∧ ¬ (rc = 0 ∧ name ∈ r.database) ∧ (r.remove rc name).1 = r) := by
  unfold Registry.remove
  split_ifs with h0 hmem
  · exact ⟨hrc, .inr ⟨h0, fun h => h0 h.1, rfl⟩⟩
  · exact ⟨by simp, .inl ⟨rfl, not_not.mp h0, hmem, rfl⟩⟩
  · exact ⟨by simp, .inr ⟨by simp, fun h => hmem h.2, rfl⟩⟩

/-- A removal followed by the check of its status. -/
theorem remove_check {t : State} (a : Answer) (name : String) (ms : List String)
    (hstep : AccountStep s t) (hother : t.registry k.other = s.registry k.other)
    (hreg : t.registry k = ((s.registry k).remove a.rc name).1) :
    let result := tcBreakIfBadRc ((s.registry k).remove a.rc name).2 ms t
    result.2 = 0 ∧ a.rc = 0 ∧ Deletes k s result.1 (· = name) ∨
      result.2 ≠ 0 ∧ ¬ (a.rc = 0 ∧ name ∈ (s.registry k).database) ∧ Keeps k s result.1 := by
  intro result
  obtain ⟨hlt, hremove⟩ := remove_spec a.rc a.rc_lt name (s.registry k)
  have hcheck := tcBreakIfBadRc_cases ((s.registry k).remove a.rc name).2 hlt ms t
  rcases hremove with ⟨h0, hrc, -, hnext⟩ | ⟨hne, hbad, hnext⟩
  · obtain ⟨-, hresult⟩ := hcheck.resolve_right fun h => h.1 h0
    have heq : result = (t, 0) := hresult
    rw [heq]
    refine .inl ⟨rfl, hrc, hstep, hother, by rw [hreg, hnext], fun d => ?_⟩
    rw [hreg, hnext]
    simp
  · obtain ⟨-, -, hstatus⟩ := hcheck.resolve_left fun h => hne h.1
    have hkeeps : Keeps k s t := ⟨hstep, hother, by rw [hreg, hnext]; exact SameNames.refl _⟩
    have heq : result.2 = ((s.registry k).remove a.rc name).2 := hstatus
    exact .inr ⟨by rwa [heq], hbad, hkeeps.trans (reports_tcBreakIfBadRc _ ms t).keeps⟩

theorem deleteUser_cases (a : Answer) (u command : String) (s : State) :
    (deleteUser a u command s).2 = 0 ∧ a.rc = 0 ∧
        Deletes .user s (deleteUser a u command s).1 (· = u) ∨
      (deleteUser a u command s).2 ≠ 0 ∧ ¬ (a.rc = 0 ∧ u ∈ s.users.database) ∧
        Keeps .user s (deleteUser a u command s).1 := by
  let t : State := { s with
    users := (s.users.remove a.rc u).1, console := { s.console with stdout := a.output } }
  have hstep : AccountStep s t := ⟨_, _, _, _, _, _, rfl, rfl⟩
  exact remove_check (k := .user) a u _ hstep rfl rfl

theorem removeUser_cases (tool : Tool) (a : Answer) (u : String) (s : State) :
    (removeUser tool a u s).2 = 0 ∧ tool ≠ .missing ∧ a.rc = 0 ∧
        Deletes .user s (removeUser tool a u s).1 (· = u) ∨
      (removeUser tool a u s).2 ≠ 0 ∧ ¬ (tool ≠ .missing ∧ a.rc = 0 ∧ u ∈ s.users.database) ∧
        Keeps .user s (removeUser tool a u s).1 := by
  unfold removeUser
  cases tool with
  | first => simpa using deleteUser_cases a u "userdel" s
  | second =>
      rcases deleteUser_cases a u "deluser" s with ⟨h0, hrc, hdel⟩ | ⟨hne, hbad, hkeeps⟩
      · simp only [h0, ne_eq, not_true_eq_false, if_false]
        exact .inl ⟨trivial, by simp, hrc, hdel.reports ⟨_, _, rfl, rfl⟩⟩
      · simp only [hne, ne_eq, not_false_eq_true, if_true]
        exact .inr ⟨trivial, fun h => hbad h.2, hkeeps⟩
  | missing =>
      exact .inr ⟨by simp [tcBreakIfBadRc_status_one], by simp,
        (reports_tcBreakIfBadRc _ _ _).keeps⟩

theorem removeGroup_cases (a : Answer) (g : String) (s : State) :
    (removeGroup a g s).2 = 0 ∧ a.rc = 0 ∧ Deletes .group s (removeGroup a g s).1 (· = g) ∨
      (removeGroup a g s).2 ≠ 0 ∧ ¬ (a.rc = 0 ∧ g ∈ s.groups.database) ∧
        Keeps .group s (removeGroup a g s).1 := by
  let t : State := ({ s with groups := (s.groups.remove a.rc g).1 }).echo (.text a.output)
  have hstep : AccountStep s t := ⟨_, _, _, _, _, _, rfl, rfl⟩
  exact remove_check (k := .group) a g _ hstep rfl rfl

theorem targeted_eq_false {name u : String} (h : name ≠ "" ∧ name ≠ u) :
    targeted name u = false := by
  simp [targeted, h.1, h.2]

theorem targeted_eq_true {name u : String} (h : ¬ (name ≠ "" ∧ name ≠ u)) :
    targeted name u = true := by
  simp only [ne_eq, not_and_or, not_not] at h
  simp [targeted, h]

/-- One round of the loop over the users that is about a target. -/
theorem deletes_round (tool : Tool) (a : Answer) (u : String) (s : State) :
    Deletes .user s
      (if (removeUser tool a u s).2 ≠ 0 then (removeUser tool a u s).1
      else tcInfo ["removed temp user " ++ u ++ "."] (removeUser tool a u s).1)
      fun d => d = u ∧ tool ≠ .missing ∧ a.rc = 0 := by
  rcases removeUser_cases tool a u s with ⟨h0, htool, hrc, hdel⟩ | ⟨hne, hbad, hkeeps⟩
  · rw [if_neg (by simpa using h0)]
    refine (hdel.reports (prints_tcInfo _ _).reports).congr fun d => ?_
    simp [htool, hrc]
  · rw [if_pos hne]
    refine hkeeps.deletes ?_
    rintro d hd ⟨rfl, htool, hrc⟩
    exact hbad ⟨htool, hrc, hd⟩

/-- The loop over the users: all targets leave the list, those whose removal succeeds
leave the database. -/
theorem delUsers_spec (tool : Tool) (name : String) (us : List String) (answers : ℕ → Answer)
    (remaining : List String) (s : State) :
    (delUsers tool name us answers remaining s).1 =
        remaining ++ us.filter (fun u => !targeted name u) ∧
      Deletes .user s (delUsers tool name us answers remaining s).2 fun d =>
        ∃ i, (us.filter (targeted name))[i]? = some d ∧ tool ≠ .missing ∧ (answers i).rc = 0 := by
  induction us generalizing answers remaining s with
  | nil => exact ⟨by simp [delUsers], (Reports.refl s).keeps.deletes (by simp)⟩
  | cons u us ih =>
      by_cases hother : name ≠ "" ∧ name ≠ u
      · have ht := targeted_eq_false hother
        obtain ⟨hrest, hdel⟩ := ih answers (remaining ++ [u]) s
        rw [delUsers, if_pos hother]
        exact ⟨by simp [hrest, ht], by simpa [ht] using hdel⟩
      · have ht := targeted_eq_true hother
        rw [delUsers, if_neg hother]
        obtain ⟨hrest, hdel⟩ := ih (fun i => answers (i + 1)) remaining
          (if (removeUser tool (answers 0) u s).2 ≠ 0 then (removeUser tool (answers 0) u s).1
          else tcInfo ["removed temp user " ++ u ++ "."] (removeUser tool (answers 0) u s).1)
        refine ⟨by simpa [ht] using hrest, ?_⟩
        refine ((deletes_round tool (answers 0) u s).trans hdel).congr fun d => ?_
        -- the first removal is of `u`, the later ones are counted from the next answer
        rw [List.filter_cons_of_pos ht]
        constructor
        · rintro (⟨rfl, hok⟩ | ⟨i, hi, hok⟩)
          · exact ⟨0, rfl, hok⟩
          · exact ⟨i + 1, by simpa using hi, hok⟩
        · rintro ⟨i, hi, hok⟩
          cases i with
          | zero => exact .inl ⟨by simpa using hi.symm, hok⟩
          | succ i => exact .inr ⟨i, by simpa using hi, hok⟩

/-- The loop over the groups, from a list of groups that exist: if all removals succeed
the targets are gone from list and database, otherwise the function returns early, and
the first target is gone if its removal was the one that succeeded. -/
theorem delGroups_spec (name : String) (gs : List String) (answers : ℕ → Answer)
    (remaining : List String) (s : State) (hnodup : gs.Nodup)
    (hexist : ∀ g ∈ gs, g ∈ s.groups.database) :
    ∃ gone, Deletes .group s (delGroups name gs answers remaining s).1 gone ∧
      ((∀ i < (gs.filter (targeted name)).length, (answers i).rc = 0) →
        (delGroups name gs answers remaining s).2 =
            .ok (remaining ++ gs.filter (fun g => !targeted name g)) ∧
          ∀ d, gone d ↔ d ∈ gs.filter (targeted name)) ∧
      (¬ (∀ i < (gs.filter (targeted name)).length, (answers i).rc = 0) →
        (∃ rc, (delGroups name gs answers remaining s).2 = .error rc) ∧
          ((answers 0).rc ≠ 0 → ∀ d, ¬ gone d) ∧
          ((answers 0).rc = 0 → ∀ g, (gs.filter (targeted name)).head? = some g → gone g)) := by
  induction gs generalizing answers remaining s with
  | nil =>
      refine ⟨fun _ => False, (Reports.refl s).keeps.deletes (by simp), ?_, ?_⟩
      · simp [delGroups]
      · simp
  | cons g gs ih =>
      obtain ⟨hnot, hnodup⟩ := List.nodup_cons.mp hnodup
      by_cases hother : name ≠ "" ∧ name ≠ g
      · have ht := targeted_eq_false hother
        obtain ⟨gone, hdel, hall, hsome⟩ := ih answers (remaining ++ [g]) s hnodup
          fun x hx => hexist x (List.mem_cons_of_mem _ hx)
        rw [delGroups, if_pos hother]
        refine ⟨gone, hdel, ?_, ?_⟩
        · simpa [ht] using hall
        · simpa [ht] using hsome
      · have ht := targeted_eq_true hother
        rw [delGroups, if_neg hother]
        rw [List.filter_cons_of_pos ht, List.filter_cons_of_neg (by simp [ht])]
        rcases removeGroup_cases (answers 0) g s with ⟨h0, hrc, hdel⟩ | ⟨hne, hbad, hkeeps⟩
        · have hround := hdel.reports
            (prints_tcInfo ["removed temp group " ++ g ++ "."] (removeGroup (answers 0) g s).1).reports
          obtain ⟨gone, hrest, hall, hsome⟩ := ih (fun i => answers (i + 1)) remaining
            (tcInfo ["removed temp group " ++ g ++ "."] (removeGroup (answers 0) g s).1) hnodup
            fun x hx => (hround.database x).mpr
              ⟨hexist x (List.mem_cons_of_mem _ hx), fun heq => hnot (heq ▸ hx)⟩
          simp only [h0, ne_eq, not_true_eq_false, if_false, List.length_cons,
            Nat.forall_lt_succ_left, hrc, true_and]
          refine ⟨fun d => d = g ∨ gone d, hround.trans hrest, fun hok => ?_, fun hfail => ?_⟩
          · obtain ⟨hresult, hgone⟩ := hall hok
            exact ⟨hresult, by simp [hgone]⟩
          · exact ⟨(hsome hfail).1, by simp, by simp⟩
        · have hrc : (answers 0).rc ≠ 0 := fun hrc => hbad ⟨hrc, hexist g List.mem_cons_self⟩
          simp only [hne, ne_eq, not_false_eq_true, if_true, List.length_cons,
            Nat.forall_lt_succ_left, hrc, false_and]
          refine ⟨fun _ => False, hkeeps.deletes (by simp), by simp, by simp⟩

/-! ## Exactness -/

/-- The accounts found at the start are still there, and those the run has created since
and not deleted are listed, each once. -/
structure Exact (before : List String) (r : Registry) : Prop where
  kept : ∀ u ∈ before, u ∈ r.database
  nodup : r.listed.Nodup
  mem : ∀ u, u ∈ r.listed ↔ u ∈ r.database ∧ u ∉ before

variable {before : List String}

theorem Exact.congr (he : Exact before r) (hlisted : r'.listed = r.listed)
    (hdatabase : ∀ d, d ∈ r'.database ↔ d ∈ r.database) : Exact before r' := by
  refine ⟨fun u hu => (hdatabase u).mpr (he.kept u hu), ?_, fun u => ?_⟩
  · rw [hlisted]
    exact he.nodup
  · rw [hlisted, hdatabase, he.mem]

theorem Exact.added (he : Exact before r) (h : Added r r') : Exact before r' := by
  cases h with
  | nothing h => exact he.congr h.listed (by simp [h.database])
  | one name hnew hlisted hdatabase =>
      have hbefore : name ∉ before := fun hmem => hnew (he.kept name hmem)
      have hfresh : name ∉ r.listed := fun hmem => hnew ((he.mem name).mp hmem).1
      refine ⟨fun u hu => ?_, ?_, fun u => ?_⟩
      · rw [hdatabase]
        exact List.mem_append_left _ (he.kept u hu)
      · rw [hlisted]
        exact he.nodup.append (List.nodup_singleton name) (by simpa using hfresh)
      · rw [hlisted, hdatabase, List.mem_append, List.mem_append, he.mem, List.mem_singleton]
        constructor
        · rintro (⟨hdb, hb⟩ | rfl)
          · exact ⟨.inl hdb, hb⟩
          · exact ⟨.inr rfl, hbefore⟩
        · rintro ⟨hdb | rfl, hb⟩
          · exact .inl ⟨hdb, hb⟩
          · exact .inr rfl

/-- After deletions from an exact registry, with the targets struck off the list, it is
exact again exactly if every target is gone. -/
theorem exact_deleted_iff (target : String → Bool) (he : Exact before r)
    (hlisted : r'.listed = r.listed.filter fun u => !target u)
    (hdatabase : ∀ d, d ∈ r'.database ↔ d ∈ r.database ∧ ¬ gone d)
    (hgone : ∀ d, gone d → d ∈ r.listed.filter target) :
    Exact before r' ↔ ∀ d ∈ r.listed.filter target, gone d := by
  constructor
  · intro he' d hd
    obtain ⟨hmem, ht⟩ := List.mem_filter.mp hd
    obtain ⟨hdb, hbefore⟩ := (he.mem d).mp hmem
    by_contra hstays
    have hstill : d ∈ r'.listed := (he'.mem d).mpr ⟨(hdatabase d).mpr ⟨hdb, hstays⟩, hbefore⟩
    rw [hlisted, List.mem_filter] at hstill
    simp [ht] at hstill
  · intro hall
    have hiff (d : String) : gone d ↔ d ∈ r.listed ∧ target d = true :=
      ⟨fun h => List.mem_filter.mp (hgone d h), fun h => hall d (List.mem_filter.mpr h)⟩
    refine ⟨fun u hu => ?_, ?_, fun u => ?_⟩
    · refine (hdatabase u).mpr ⟨he.kept u hu, fun hg => ?_⟩
      exact ((he.mem u).mp ((hiff u).mp hg).1).2 hu
    · rw [hlisted]
      exact he.nodup.filter _
    · rw [hlisted, List.mem_filter, hdatabase, hiff, he.mem]
      cases target u <;> simp
      tauto

/-- In a list without duplicates a position stands for its element. -/
theorem forall_mem_iff_forall_index {l : List String} (hnodup : l.Nodup) {P : ℕ → Prop} :
    (∀ d ∈ l, ∃ i, l[i]? = some d ∧ P i) ↔ ∀ i < l.length, P i := by
  constructor
  · intro hall i hi
    obtain ⟨j, hj, hp⟩ := hall l[i] (List.getElem_mem hi)
    obtain ⟨hlt, heq⟩ := List.getElem?_eq_some_iff.mp hj
    obtain rfl := hnodup.getElem_inj_iff.mp heq
    exact hp
  · intro hall d hd
    obtain ⟨i, hi, rfl⟩ := List.getElem_of_mem hd
    exact ⟨i, List.getElem?_eq_getElem hi, hall i hi⟩

theorem exact_tcDelUserOrBreak_iff (tool : Tool) (answers : ℕ → Answer) (name : String)
    (he : Exact before s.users) :
    Exact before (tcDelUserOrBreak tool answers name s).users ↔
      ∀ i < (s.users.listed.filter (targeted name)).length,
        tool ≠ .missing ∧ (answers i).rc = 0 := by
  obtain ⟨hremaining, hdel⟩ := delUsers_spec tool name s.users.listed answers [] s
  have hlisted : (tcDelUserOrBreak tool answers name s).users.listed =
      s.users.listed.filter fun u => !targeted name u := by
    simpa [tcDelUserOrBreak] using hremaining
  rw [exact_deleted_iff (targeted name) he hlisted hdel.database]
  · exact forall_mem_iff_forall_index (he.nodup.filter _)
  · rintro d ⟨i, hi, -⟩
    exact List.mem_of_getElem? hi

theorem tcDelUserOrBreak_other (tool : Tool) (answers : ℕ → Answer) (name : String) (s : State) :
    (tcDelUserOrBreak tool answers name s).groups = s.groups :=
  (delUsers_spec tool name s.users.listed answers [] s).2.other

/-- A delete of groups that meets no command, or fails at once, changes no registry; one
that goes through is exact; one that fails later has deleted a group that stays listed. -/
theorem exact_tcDelGroupOrBreak_iff (tool : Tool) (answers : ℕ → Answer) (name : String)
    (he : Exact before s.groups) :
    (tcDelGroupOrBreak tool answers name s).1.users = s.users ∧
      (Exact before (tcDelGroupOrBreak tool answers name s).1.groups ↔
        tool = .missing ∨ (answers 0).rc ≠ 0 ∨
          ∀ i < (s.groups.listed.filter (targeted name)).length, (answers i).rc = 0) := by
  by_cases hm : tool = .missing
  · subst hm
    have hr := (reports_recordFail s).trans (tcDelGroupOrBreak_missing answers name s).reports
    have hgroups : (tcDelGroupOrBreak .missing answers name s).1.groups = s.groups :=
      hr.registry .group
    exact ⟨hr.registry .user, iff_of_true (by rwa [hgroups]) (.inl rfl)⟩
  · obtain ⟨gone, hdel, hall, hsome⟩ := delGroups_spec name s.groups.listed answers [] s he.nodup
      fun g hg => ((he.mem g).mp hg).1
    rw [tcDelGroupOrBreak_eq hm]
    generalize delGroups name s.groups.listed answers [] s = result at hdel hall hsome
    obtain ⟨t, result⟩ := result
    by_cases hok : ∀ i < (s.groups.listed.filter (targeted name)).length, (answers i).rc = 0
    · obtain ⟨rfl, hgone⟩ := hall hok
      refine ⟨hdel.other, iff_of_true ?_ (.inr (.inr hok))⟩
      have hlisted (remaining : List String) :
          (storeGroups (t, .ok remaining)).1.groups.listed = remaining := rfl
      refine (exact_deleted_iff (targeted name) he (hlisted _) hdel.database ?_).mpr ?_
      · exact fun d hd => (hgone d).mp hd
      · exact fun d hd => (hgone d).mpr hd
    · obtain ⟨⟨rc, rfl⟩, hnone, hfirst⟩ := hsome hok
      refine ⟨hdel.other, ?_⟩
      by_cases h0 : (answers 0).rc = 0
      · refine iff_of_false (fun he' => ?_) (by simp [hm, h0, hok])
        -- the first target is gone from the database, but the list was not updated
        obtain ⟨g, hg⟩ : ∃ g, (s.groups.listed.filter (targeted name)).head? = some g := by
          cases hfilter : s.groups.listed.filter (targeted name) with
          | nil => simp [hfilter] at hok
          | cons g gs => exact ⟨g, rfl⟩
        have hlisted : g ∈ t.groups.listed := by
          have hsame : t.groups.listed = s.groups.listed := hdel.listed
          rw [hsame]
          exact (List.mem_filter.mp (List.mem_of_mem_head? hg)).1
        exact ((hdel.database g).mp ((he'.mem g).mp hlisted).1).2 (hfirst h0 g hg)
      · refine iff_of_true ?_ (.inr (.inl h0))
        exact he.congr hdel.listed fun d => (hdel.database d).trans (and_iff_left (hnone h0 d))

/-! ## All sequences of calls -/

/-- The account functions with what they meet. Between them a testcase may leave any texts
in its files, which some of them look at. -/
inductive AccountCall where
  | files (stdout stderr : String)
  | addUser (e : AddUser) (name : String)
  | delUser (tool : Tool) (answers : ℕ → Answer) (name : String)
  | addGroup (tool : Tool) (a : Answer) (name : String)
  | delGroup (tool : Tool) (answers : ℕ → Answer) (name : String)

def AccountCall.run (s : State) : AccountCall → State
  | .files stdout stderr => s.setFiles stdout stderr
  | .addUser e name => (tcAddUserOrBreak e name s).1
  | .delUser tool answers name => tcDelUserOrBreak tool answers name s
  | .addGroup tool a name => (tcAddGroupOrBreak tool a name s).1
  | .delGroup tool answers name => (tcDelGroupOrBreak tool answers name s).1

def accountMachine (host : Host) : Machine State AccountCall where
  init := tcSetup host
  step s l := some (l.run s)

def AccountsExact (host : Host) (s : State) : Prop :=
  Exact host.users s.users ∧ Exact host.groups s.groups

/-- No delete of users fails to delete one of its targets, and no delete of groups fails
after it has deleted one. -/
def AccountCall.Regular (s : State) : AccountCall → Prop
  | .delUser tool answers name =>
      ∀ i < (s.users.listed.filter (targeted name)).length, tool ≠ .missing ∧ (answers i).rc = 0
  | .delGroup tool answers name =>
      tool = .missing ∨ (answers 0).rc ≠ 0 ∨
        ∀ i < (s.groups.listed.filter (targeted name)).length, (answers i).rc = 0
  | _ => True

theorem accountsExact_step {host : Host} (he : AccountsExact host s) (l : AccountCall) :
    AccountsExact host (l.run s) ↔ l.Regular s := by
  obtain ⟨hu, hg⟩ := he
  cases l with
  | files stdout stderr => exact iff_of_true ⟨hu, hg⟩ trivial
  | addUser e name =>
      have h := addsUser_tcAddUserOrBreak e name s
      have hgroups : (tcAddUserOrBreak e name s).1.groups = s.groups := h.other
      exact iff_of_true ⟨hu.added h.names, by rwa [AccountCall.run, hgroups]⟩ trivial
  | addGroup tool a name =>
      have h := addsGroup_tcAddGroupOrBreak tool a name s
      have husers : (tcAddGroupOrBreak tool a name s).1.users = s.users := h.other
      exact iff_of_true ⟨by rwa [AccountCall.run, husers], hg.added h.names⟩ trivial
  | delUser tool answers name =>
      have hgroups : Exact host.groups (tcDelUserOrBreak tool answers name s).groups := by
        rwa [tcDelUserOrBreak_other]
      exact (and_iff_left hgroups).trans (exact_tcDelUserOrBreak_iff tool answers name hu)
  | delGroup tool answers name =>
      obtain ⟨husers, hiff⟩ := exact_tcDelGroupOrBreak_iff tool answers name hg
      have hexact : Exact host.users (tcDelGroupOrBreak tool answers name s).1.users := by
        rwa [husers]
      exact (and_iff_right hexact).trans hiff

theorem accountsExact_init (host : Host) : AccountsExact host (accountMachine host).init :=
  ⟨⟨fun _ h => h, List.nodup_nil, by simp [accountMachine, tcSetup]⟩,
    ⟨fun _ h => h, List.nodup_nil, by simp [accountMachine, tcSetup]⟩⟩

/-- Over any sequence of calls and answers the registries are exact after every call
exactly if no call is one of the two irregular kinds. -/
theorem accounts_exact_iff {host : Host} {h : List (State × AccountCall)}
    (run : (accountMachine host).Run h s) :
    (∀ t ∈ Machine.visited h s, AccountsExact host t) ↔ ∀ e ∈ h, e.2.Regular e.1 := by
  refine run.forall_visited_iff (I := AccountsExact host) (C := fun s l => l.Regular s)
    (accountsExact_init host) ?_
  intro h s l s' _ he hs
  obtain rfl := Option.some.inj hs
  exact accountsExact_step he l

instance (s : State) (l : AccountCall) : Decidable (l.Regular s) :=
  match l with
  | .files _ _ | .addUser _ _ | .addGroup _ _ _ => isTrue trivial
  | .delUser tool answers name => inferInstanceAs
      (Decidable (∀ i < (s.users.listed.filter (targeted name)).length,
        tool ≠ .missing ∧ (answers i).rc = 0))
  | .delGroup tool answers name => inferInstanceAs
      (Decidable (tool = .missing ∨ (answers 0).rc ≠ 0 ∨
        ∀ i < (s.groups.listed.filter (targeted name)).length, (answers i).rc = 0))

/-- A machine with the accounts of root. -/
def rootHost : Host := ⟨4711, 1, true, fun _ => "", ["root"], ["root"], []⟩

/-- `tc_add_user_or_break u` on a machine with `useradd`, which succeeds. -/
def addsUser (u : String) : AccountCall :=
  .addUser ⟨true, .first, .success, .success, "/home/" ++ u, 0⟩ u

theorem accounts_exact_deleted :
    ∃ h s, (accountMachine rootHost).Run h s ∧ s.users.listed = ["u2"] ∧ s.groups.listed = [] ∧
      ∀ t ∈ Machine.visited h s, AccountsExact rootHost t := by
  let labels : List AccountCall :=
    [addsUser "u1", addsUser "u2", .delUser .first (fun _ => .success) "u1",
      .addGroup .first .success "g1",
      .delGroup .first (fun _ => .success) ""]
  have run := (accountMachine rootHost).run_of_replay labels rfl
  exact ⟨_, _, run, by decide, by decide, (accounts_exact_iff run).mpr (by decide)⟩

/-- `userdel` fails for a user it was asked to delete: the user exists and is not listed any
more, so that no later delete tries again. -/
theorem accounts_exact_fails :
    ∃ h s, (accountMachine rootHost).Run h s ∧ "u1" ∈ s.users.database ∧
      "u1" ∉ rootHost.users ∧ s.users.listed = [] ∧ ¬ AccountsExact rootHost s := by
  let labels : List AccountCall :=
    [addsUser "u1", .delUser .first (fun _ => ⟨8, "user u1 is logged in", by decide⟩) ""]
  have run := (accountMachine rootHost).run_of_replay labels rfl
  refine ⟨_, _, run, by decide, by decide, by decide, fun he => ?_⟩
  have hlisted := (he.1.mem "u1").mpr (by decide)
  revert hlisted
  decide

end AutotestClient.Harness
