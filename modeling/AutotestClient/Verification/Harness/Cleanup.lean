import AutotestClient.Verification.Harness.ExitStatus
import AutotestClient.Verification.Harness.Registry

/-! # What the cleanup leaves behind

Every action of a testcase keeps what the cleanup relies on: the saved copies, the lists
of accounts and processes, the directory `TC_SAVE`. The cleanup then undoes everything,
unless it stops at the test for cases that did not run. -/

namespace AutotestClient.Harness

variable {s s' : State} {host : Host}

/-! ## What an exit finds -/

/-- What holds between `tc_setup` and the exit. -/
structure Tracked (host : Host) (s : State) : Prop where
  saved : s.saved = host.net
  tcSave : s.tcSave = true
  capLog : s.capLogPid = none
  total : s.tstTotal = host.tstTotal
  stderr : s.console.stderrIsNull = false
  accounts : AccountsExact host s

theorem tracked_tcSetup (host : Host) : Tracked host (tcSetup host) :=
  ⟨rfl, rfl, rfl, rfl, rfl, accountsExact_init host⟩

theorem Tracked.reports (h : Tracked host s) (hr : Reports s s') : Tracked host s' := by
  obtain ⟨c, r, rfl, hc⟩ := hr
  exact ⟨h.saved, h.tcSave, h.capLog, h.total, hc.trans h.stderr, h.accounts⟩

theorem Tracked.accountStep (h : Tracked host s) (hs : AccountStep s s')
    (ha : AccountsExact host s') : Tracked host s' := by
  obtain ⟨c, r, users, groups, passwd, home, rfl, hc⟩ := hs
  exact ⟨h.saved, h.tcSave, h.capLog, h.total, hc.trans h.stderr, ha⟩

theorem prints_appendStderr (s : State) (text : String) : Prints s (s.appendStderr text) :=
  ⟨_, rfl, rfl⟩

theorem Tracked.files (h : Tracked host s) (out err : String) :
    Tracked host ((s.appendStdout out).appendStderr err) :=
  h.reports ((prints_appendStdout s out).trans (prints_appendStderr _ err)).reports

/-- Any end of `tc_sleeper`, by return or by exit. -/
theorem Tracked.tcSleeper (h : Tracked host s) (e : Sleeper) (name : String) :
    Tracked host (tcSleeper e name s).1 := by
  simp only [Harness.tcSleeper]
  generalize (if name ≠ "" then (0 : ℤ) else 1) = rc
  have hunset : Tracked host { s with sleeperPid := none } :=
    ⟨h.saved, h.tcSave, h.capLog, h.total, h.stderr, h.accounts⟩
  generalize hname : tcBreakIfBad rc ["Must provide name for sleeper process to tc_sleeper"]
    { s with sleeperPid := none } = p1
  have h1 : Tracked host p1.1 := hname ▸ hunset.reports (reports_tcBreakIfBad _ _ _)
  split
  · exact h1
  · generalize hstart :
      (if e.starts then { p1.1 with alive := e.pid :: p1.1.alive } else p1.1) = t
    have hstarted : Tracked host t := by
      rw [← hstart]
      split
      · exact ⟨h1.saved, h1.tcSave, h1.capLog, h1.total, h1.stderr, h1.accounts⟩
      · exact h1
    generalize hreport : tcBreakIfBad e.reported.rc
      ["tc_sleeper: " ++ name ++ " did not report its pid"]
      ((t.appendStdout e.reported.output).appendStderr e.reportedErr) = p2
    have h2 : Tracked host p2.1 :=
      hreport ▸ (hstarted.files _ _).reports (reports_tcBreakIfBad _ _ _)
    split
    · exact h2
    · have hlisted : Tracked host
          { p2.1 with
            sleeperPid := some e.pid
            sleeperPids := .text "tc_sleeper:" :: .pid e.pid :: p2.1.sleeperPids } :=
        ⟨h2.saved, h2.tcSave, h2.capLog, h2.total, h2.stderr, h2.accounts⟩
      split
      · exact (hlisted.files _ _).reports (reports_tcBreakIfBad _ _ _)
      · exact (hlisted.files _ _).reports (reports_tcBreakIfBad _ _ _)

theorem Tracked.action (h : Tracked host s) (a : Action) : Tracked host (a.run s).1 := by
  cases a with
  | call c =>
      obtain ⟨console, name, hrun, hconsole⟩ := call_run c h.stderr
      simp only [Action.run, hrun]
      exact ⟨h.saved, h.tcSave, h.capLog, h.total, hconsole, h.accounts⟩
  | files out err => exact h.reports (prints_setFiles s out err).reports
  | sleeper e name => exact h.tcSleeper e name
  | addUser e name =>
      have hadd := addsUser_tcAddUserOrBreak e name s
      exact h.accountStep hadd.step ((accountsExact_step h.accounts (.addUser e name)).mpr trivial)
  | addGroup tool a name =>
      have hadd := addsGroup_tcAddGroupOrBreak tool a name s
      exact h.accountStep hadd.step
        ((accountsExact_step h.accounts (.addGroup tool a name)).mpr trivial)
  | overwrite f content => exact ⟨h.saved, h.tcSave, h.capLog, h.total, h.stderr, h.accounts⟩

theorem Tracked.runActions (h : Tracked host s) (actions : List Action) :
    Tracked host (runActions actions s) := by
  induction actions generalizing s with
  | nil => exact h
  | cons a actions ih =>
      rw [Harness.runActions]
      split
      · exact h.action a
      · exact ih (h.action a)

/-! ## The account commands of the cleanup -/

/-- The commands that delete accounts are there and succeed. -/
structure CommandsSucceed (e : Cleanup) : Prop where
  userTool : e.userTool ≠ .missing
  userdel : ∀ i, (e.userdel i).rc = 0
  groupTool : e.groupTool ≠ .missing
  groupdel : ∀ i, (e.groupdel i).rc = 0

/-- An exact registry with an empty list has no account the run has created. -/
theorem Exact.subset {before : List String} {r : Registry} (he : Exact before r)
    (hnil : r.listed = []) : ∀ u ∈ r.database, u ∈ before := by
  intro u hu
  by_contra hb
  have hmem := (he.mem u).mpr ⟨hu, hb⟩
  simp [hnil] at hmem

theorem accountStep_tcDelUserOrBreak (tool : Tool) (answers : ℕ → Answer) (name : String)
    (s : State) : AccountStep s (tcDelUserOrBreak tool answers name s) :=
  (delUsers_spec tool name s.users.listed answers [] s).2.step.trans
    ⟨_, _, _, _, _, _, rfl, rfl⟩

theorem filter_not_targeted (l : List String) : l.filter (fun u => !targeted "" u) = [] := by
  simp [targeted]

/-- Deleting all users leaves none listed. -/
theorem listed_tcDelUserOrBreak (tool : Tool) (answers : ℕ → Answer) (s : State) :
    (tcDelUserOrBreak tool answers "" s).users.listed = [] := by
  have hremaining := (delUsers_spec tool "" s.users.listed answers [] s).1
  rw [filter_not_targeted] at hremaining
  exact hremaining

/-- Deleting all groups, with every removal succeeding, leaves none listed. -/
theorem tcDelGroupOrBreak_all {tool : Tool} {answers : ℕ → Answer} {before : List String}
    (he : Exact before s.groups) (htool : tool ≠ .missing) (hok : ∀ i, (answers i).rc = 0) :
    AccountStep s (tcDelGroupOrBreak tool answers "" s).1 ∧
      (tcDelGroupOrBreak tool answers "" s).1.groups.listed = [] := by
  obtain ⟨gone, hdel, hall, -⟩ := delGroups_spec "" s.groups.listed answers [] s he.nodup
    fun g hg => ((he.mem g).mp hg).1
  obtain ⟨hresult, -⟩ := hall fun i _ => hok i
  rw [filter_not_targeted] at hresult
  rw [tcDelGroupOrBreak_eq htool]
  generalize delGroups "" s.groups.listed answers [] s = result at hdel hresult
  obtain ⟨t, result⟩ := result
  obtain rfl : result = .ok ([] ++ []) := hresult
  exact ⟨hdel.step.trans ⟨_, _, _, _, _, _, rfl, rfl⟩, rfl⟩

/-! ## The whole cleanup -/

/-- Nothing of the run is left: the networking files have the contents they had at
`tc_setup`, no listed sleeper is alive, no user or group was added, and the directories
are gone. -/
structure Clean (host : Host) (s : State) : Prop where
  net : ∀ f ∈ tcSaveNet, s.net f = host.net f
  sleepers : ∀ p, .pid p ∈ s.sleeperPids → p ∉ s.alive
  users : ∀ u ∈ s.users.database, u ∈ host.users
  groups : ∀ g ∈ s.groups.database, g ∈ host.groups
  tcMytmp : s.tcMytmp = false
  tcSave : s.tcSave = false

theorem clean_releaseResources {e : Cleanup} (h : Tracked host s) (he : CommandsSucceed e) :
    Clean host (releaseResources e s).1 := by
  let t : State :=
    { s with net := s.saved, alive := s.alive.filter fun p => .pid p ∉ s.sleeperPids }
  have hkill : killSleepers (restoreNet s) = t := by rw [restoreNet_eq h.tcSave, killSleepers_eq]
  have hcapLog : tcCapLogStop e.capLogStopped t = (t, none) := by
    simp only [tcCapLogStop, t, h.capLog]
  let t1 := tcDelUserOrBreak e.userTool e.userdel "" t
  let t2 := (tcDelGroupOrBreak e.groupTool e.groupdel "" t1).1
  have h0 : AccountsExact host t := h.accounts
  have h1 : AccountsExact host t1 :=
    (accountsExact_step h0 (.delUser e.userTool e.userdel "")).mpr
      fun i _ => ⟨he.userTool, he.userdel i⟩
  have h2 : AccountsExact host t2 :=
    (accountsExact_step h1 (.delGroup e.groupTool e.groupdel "")).mpr
      (.inr (.inr fun i _ => he.groupdel i))
  obtain ⟨hstep, hgroups⟩ := tcDelGroupOrBreak_all h1.2 he.groupTool he.groupdel
  have husers : t2.users.listed = [] := by
    have hsame : t2.users = t1.users :=
      (exact_tcDelGroupOrBreak_iff e.groupTool e.groupdel "" h1.2).1
    rw [hsame]
    exact listed_tcDelUserOrBreak e.userTool e.userdel t
  obtain ⟨c, r, users, groups, passwd, home, hs, -⟩ :=
    (accountStep_tcDelUserOrBreak e.userTool e.userdel "" t).trans hstep
  obtain ⟨c', hinfo, -⟩ := prints_tcInfo ["Finish"] (removeDirectories t2)
  have hfinal : (releaseResources e s).1 = { removeDirectories t2 with console := c' } := by
    rw [← hinfo]
    simp only [releaseResources, hkill, hcapLog, t2, t1]
  rw [hfinal]
  refine ⟨fun f _ => ?_, fun p hp => ?_, h2.1.subset husers, h2.2.subset hgroups, rfl, rfl⟩
  · have hnet : t2.net = s.saved := (congrArg State.net hs).trans rfl
    exact (congrFun hnet f).trans (congrFun h.saved f)
  · have hpids : t2.sleeperPids = s.sleeperPids := (congrArg State.sleeperPids hs).trans rfl
    have halive : t2.alive = s.alive.filter fun p => .pid p ∉ s.sleeperPids :=
      (congrArg State.alive hs).trans rfl
    have hlisted : .pid p ∈ s.sleeperPids := hpids ▸ hp
    simp [removeDirectories, halive, hlisted]

/-- A testcase that does any actions after `tc_setup` and then exits is cleaned up, given
that the commands of the cleanup succeed, exactly if `TST_COUNT` has reached `TST_TOTAL`
by then (with what the testcase's own cleanup registers). -/
theorem tcInternalCleanup_clean_iff (host : Host) (actions : List Action) {e : Cleanup}
    (he : CommandsSucceed e) :
    let s := runActions actions (tcSetup host)
    Clean host (tcInternalCleanup e s).1 ↔ s.tstTotal ≤ s.tstCount + registered e.localCleanup := by
  intro s
  have h : Tracked host s := (tracked_tcSetup host).runActions actions
  obtain ⟨console, name, results, hbegin, hnull⟩ := beginCleanup_frame e h.stderr
  rw [tcInternalCleanup, hbegin]
  by_cases hcount : s.tstCount + registered e.localCleanup < s.tstTotal
  · rw [if_pos hcount]
    refine iff_of_false (fun hclean => ?_) (Int.not_le.mpr hcount)
    have hleft := hclean.tcSave
    simp [State.echo, h.tcSave] at hleft
  · rw [if_neg hcount]
    refine iff_of_true (clean_releaseResources ?_ he) (Int.not_lt.mp hcount)
    exact ⟨h.saved, h.tcSave, h.capLog, h.total, hnull, h.accounts⟩

/-- A machine with a hosts file and a resolv.conf, and without a `$TMP`. -/
def netHost (total : ℤ) : Host where
  pid := 4711
  tstTotal := total
  tmpIsDir := false
  net f := match f with
    | .hosts => "127.0.0.1 localhost"
    | .resolvConf => "nameserver 10.0.0.1"
  users := ["root"]
  groups := ["root"]
  alive := [1]

/-- A testcase that registers one test, adds a user and a group, starts a sleeper and
overwrites the hosts file. -/
def busyActions : List Action :=
  [.call ⟨"", "", .register "test"⟩,
    .addUser ⟨true, .first, .success, .success, "/home/u1", 0⟩ "u1",
    .addGroup .first .success "g1",
    .sleeper ⟨true, 4712, .success, "", .success, ""⟩ "sleeper",
    .overwrite .hosts "127.0.0.1 test"]

/-- The one test of a testcase was registered: everything is undone. -/
theorem tcInternalCleanup_clean_all :
    (runActions busyActions (tcSetup (netHost 1))).users.listed = ["u1"] ∧
      (runActions busyActions (tcSetup (netHost 1))).alive = [4712, 1] ∧
      Clean (netHost 1)
        (tcInternalCleanup goodCleanup (runActions busyActions (tcSetup (netHost 1)))).1 := by
  refine ⟨by decide, by decide, ?_⟩
  have he : CommandsSucceed goodCleanup := ⟨by decide, fun _ => rfl, by decide, fun _ => rfl⟩
  exact (tcInternalCleanup_clean_iff (netHost 1) busyActions he).mpr (by decide)

/-- One of two tests was registered at the exit: the user, the group, the sleeper, the
overwritten file and both directories are left. -/
theorem tcInternalCleanup_clean_fails :
    let s := (tcInternalCleanup goodCleanup
      (runActions busyActions (tcSetup (netHost 2)))).1
    CommandsSucceed goodCleanup ∧ s.net .hosts = "127.0.0.1 test" ∧ 4712 ∈ s.alive ∧
      "u1" ∈ s.users.database ∧ "g1" ∈ s.groups.database ∧ s.tcMytmp = true ∧
      s.tcSave = true ∧ ¬ Clean (netHost 2) s := by
  refine ⟨⟨by decide, fun _ => rfl, by decide, fun _ => rfl⟩, by decide, by decide, by decide,
    by decide, by decide, by decide, fun hclean => ?_⟩
  have hleft := hclean.tcSave
  revert hleft
  decide

end AutotestClient.Harness
