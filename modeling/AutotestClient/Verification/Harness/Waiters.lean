import AutotestClient.Model.Harness.Lifecycle
import AutotestClient.Model.Harness.Waiters
import AutotestClient.Shared.Polling
import AutotestClient.Verification.Harness.Reporting

/-! # Waiting for a condition

Each loop makes the observations that polling with its counter makes, except the one that counts
before it looks. -/

namespace AutotestClient.Harness.Waiters

open Shared

variable {σ : Type} {cond : ℕ → Bool} {test : ℕ → σ → σ × Bool} {say : ℕ → σ → σ} {n i max : ℕ}
  {s : State}

/-! ## Loops -/

/-- So many observations were made and such a status returned as polling gives. -/
structure Follows (seen status : ℕ) (o : ℕ × Bool) : Prop where
  seen_eq : seen = o.1
  status_iff : status = 0 ↔ o.2 = true

theorem follows_left (s : σ) (i left : ℕ) :
    Follows (Poll.seen ⟨s, i, left⟩) (Poll.status ⟨s, i, left⟩) (i, decide (0 < left)) := by
  refine ⟨rfl, ?_⟩
  rw [Poll.status]
  split_ifs with hleft
  · simp [hleft]
  · simp [hleft]

theorem follows_countFirst (htest : ∀ i s, (test i s).2 = !cond i) (n i : ℕ) (s : σ) :
    let p := countFirst test say n i s
    Follows p.seen p.status (observe cond n i) := by
  induction n generalizing i s with
  | zero => exact follows_left s i 0
  | succ n ih =>
      rw [countFirst]
      cases h : cond i with
      | true =>
          rw [observe_succ_of_holds h]
          simp only [htest, h, Bool.not_true, Bool.false_eq_true, if_false]
          exact follows_left _ (i + 1) (n + 1)
      | false =>
          rw [observe_succ_of_not h]
          simp only [htest, h, Bool.not_false, if_true]
          split_ifs with hn
          · subst hn
            exact follows_left _ (i + 1) 0
          · exact ih (i + 1) _

theorem follows_sayFirst (htest : ∀ i s, (test i s).2 = !cond i) (n i : ℕ) (s : σ) :
    let p := sayFirst test say n i s
    Follows p.seen p.status (observe cond n i) := by
  induction n generalizing i s with
  | zero => exact follows_left s i 0
  | succ n ih =>
      rw [sayFirst]
      cases h : cond i with
      | true =>
          rw [observe_succ_of_holds h]
          simp only [htest, h, Bool.not_true, Bool.false_eq_true, if_false]
          exact follows_left _ (i + 1) (n + 1)
      | false =>
          rw [observe_succ_of_not h]
          simp only [htest, h, Bool.not_false, if_true]
          split_ifs with hn
          · subst hn
            exact follows_left _ (i + 1) 0
          · exact ih (i + 1) _

theorem follows_awaitFile (cond : ℕ → Bool) (file : String) (n i : ℕ) (s : State) :
    let p := awaitFile cond file n i s
    Follows p.seen p.status (observe cond n i) := by
  induction n generalizing i s with
  | zero => exact follows_left s i 0
  | succ n ih =>
      rw [awaitFile]
      cases h : cond i with
      | true =>
          rw [observe_succ_of_holds h, if_pos rfl]
          exact follows_left _ (i + 1) (n + 1)
      | false =>
          rw [observe_succ_of_not h, if_neg Bool.false_ne_true]
          split_ifs with hn
          · subst hn
            exact follows_left _ (i + 1) 0
          · exact ih (i + 1) _

/-- The text is looked for once less than the counter says. -/
theorem follows_awaitText (cond : ℕ → Bool) (file text : String) (n i : ℕ) (s : State) :
    let p := awaitText cond file text (n + 1) i s
    Follows p.seen p.status (observe cond n i) := by
  induction n generalizing i s with
  | zero => exact follows_left s i 0
  | succ n ih =>
      rw [awaitText, if_neg n.succ_ne_zero]
      cases h : cond i with
      | true =>
          rw [observe_succ_of_holds h, if_pos rfl]
          exact follows_left _ (i + 1) (n + 1)
      | false =>
          rw [observe_succ_of_not h, if_neg Bool.false_ne_true]
          exact ih (i + 1) _

variable {seen status : ℕ}

theorem Follows.polls (h : Follows seen status (observe cond max 0)) :
    Polls cond max seen (status = 0) := by
  have hpolls := polls_observe cond max
  rwa [← h.seen_eq, ← h.status_iff] at hpolls

theorem Follows.polls_succ_iff (h : Follows seen status (observe cond n 0)) :
    Polls cond (n + 1) seen (status = 0) ↔ (∃ i < n, cond i) ∨ cond n = false := by
  rw [← polls_observe_pred_iff, ← h.seen_eq, ← h.status_iff]

/-! ## Arguments -/

theorem orExit_pass {ok : Bool} (hok : ok = true) (m : String) (s : State) :
    orExit ok m s = .ok s := by
  simp only [orExit, hok, if_true, tcBreakIfBadRc_pass, ne_eq, not_true_eq_false, if_false]

theorem checkMax_pos (hmax : 0 < max) (funcname : String) (s : State) :
    checkMax funcname (some max) s = .ok (max, s) := by
  have hpos : decide (0 < (max : ℤ)) = true := by simpa using hmax
  rw [checkMax, orExit_pass hpos]
  rfl

/-! ## The functions -/

/-- A call of one of the functions, with what it observes. -/
inductive Waiter where
  | file (file test : String) (holds : ℕ → Bool)
  | noFile (file : String) (exist : ℕ → Bool)
  | fileText (file text : String) (exist contains : ℕ → Bool)
  | pid (pid : ℕ) (shows : ℕ → Bool)
  | noPid (pid : ℕ) (runs : ℕ → Bool)
  | activePort (port : ℤ) (tcPort : Option (List Char)) (find : ℕ → Option (List Char))
  | inactivePort (port : ℤ) (tcPort : Option (List Char)) (find : ℕ → Option (List Char))

namespace Waiter

/-- The awaited condition. -/
def awaited : Waiter → ℕ → Bool
  | file _ _ holds => holds
  | noFile _ exist => fun i => !exist i
  | fileText _ _ _ contains => contains
  | pid _ shows => shows
  | noPid _ runs => fun i => !runs i
  | activePort _ _ find => fun i => (find i).isNone
  | inactivePort _ _ find => fun i => (find i).isSome

def run (max : ℕ) (s : State) : Waiter → Except State Waited
  | file name test holds => tcWaitForFile name (some max) test holds s
  | noFile name exist => tcWaitForNoFile name (some max) exist s
  | fileText name text exist contains => tcWaitForFileText name text (some max) exist contains s
  | pid p shows => tcWaitForPid [p] (some max) (fun _ => shows) s
  | noPid p runs => tcWaitForNoPid [p] (some max) (fun _ => runs) s
  | activePort port tcPort find =>
      (tcWaitForActivePort port (some max) find ⟨s, tcPort⟩).map Prod.fst
  | inactivePort port tcPort find =>
      (tcWaitForInactivePort port (some max) find ⟨s, tcPort⟩).map Prod.fst

/-- The arguments pass the checks, and a file that is to contain a text shows up in time. -/
def Valid (max : ℕ) : Waiter → Prop
  | file name test _ => name ≠ "" ∧ test ∈ ["", "size", "directory", "exist"]
  | noFile name _ => name ≠ ""
  | fileText name _ exist _ => name ≠ "" ∧ ∃ i < max, exist i
  | pid .. | noPid .. => True
  | activePort port .. | inactivePort port .. => 0 < port

/-- The call is one of `tc_wait_for_file_text`. -/
def isFileText : Waiter → Bool
  | fileText .. => true
  | _ => false

end Waiter

variable {file test : String}

theorem tcWaitForFile_eq {holds : ℕ → Bool} (hmax : 0 < max) (hfile : file ≠ "")
    (htest : test ∈ ["", "size", "directory", "exist"]) (s : State) :
    tcWaitForFile file (some max) test holds s = .ok (awaitFile holds file max 0 s).waited := by
  rw [tcWaitForFile, orExit_pass (by simpa using hfile)]
  dsimp only [bind, Except.bind]
  rw [checkMax_pos hmax]
  dsimp only
  rw [orExit_pass (decide_eq_true htest)]
  rfl

theorem follows_tcWaitForFile {holds : ℕ → Bool} (hmax : 0 < max) (hfile : file ≠ "")
    (htest : test ∈ ["", "size", "directory", "exist"]) (s : State) :
    ∃ r, tcWaitForFile file (some max) test holds s = .ok r ∧
      Follows r.seen r.status (observe holds max 0) :=
  ⟨_, tcWaitForFile_eq hmax hfile htest s, follows_awaitFile holds file max 0 s⟩

theorem follows_tcWaitForNoFile {exist : ℕ → Bool} (hmax : 0 < max) (hfile : file ≠ "")
    (s : State) :
    ∃ r, tcWaitForNoFile file (some max) exist s = .ok r ∧
      Follows r.seen r.status (observe (fun i => !exist i) max 0) := by
  rw [tcWaitForNoFile, orExit_pass (by simpa using hfile)]
  dsimp only [bind, Except.bind]
  rw [checkMax_pos hmax]
  exact ⟨_, rfl, follows_countFirst (fun i s => (Bool.not_not (exist i)).symm) max 0 s⟩

theorem follows_tcWaitForFileText {text : String} {exist contains : ℕ → Bool}
    (hfile : file ≠ "") (hexist : ∃ i < n + 1, exist i) (s : State) :
    ∃ r, tcWaitForFileText file text (some (n + 1 : ℕ)) exist contains s = .ok r ∧
      Follows r.seen r.status (observe contains n 0) := by
  rw [tcWaitForFileText, checkMax_pos n.succ_pos]
  dsimp only [bind, Except.bind]
  have hwait : (awaitFile exist file n.succ 0 s).waited.status = 0 :=
    (follows_awaitFile exist file (n + 1) 0 s).polls.success_iff.mpr hexist
  rw [tcWaitForFile_eq n.succ_pos hfile List.mem_cons_self]
  dsimp only
  rw [if_neg (not_not.mpr hwait)]
  exact ⟨_, rfl, follows_awaitText contains file text n 0 _⟩

theorem follows_forPids_singleton {await : ℕ → ℕ → State → Poll State} {pid : ℕ}
    {o : ℕ × Bool} (h : Follows (await pid 0 s).seen (await pid 0 s).status o) :
    Follows (forPids await [pid] 0 s).seen (forPids await [pid] 0 s).status o := by
  rw [forPids]
  split_ifs with hstatus
  · exact h
  · rw [not_not] at hstatus
    rw [hstatus] at h
    exact h

theorem follows_tcWaitForPid {pid : ℕ} {shows : ℕ → Bool} (hmax : 0 < max) (s : State) :
    ∃ r, tcWaitForPid [pid] (some max) (fun _ => shows) s = .ok r ∧
      Follows r.seen r.status (observe shows max 0) := by
  rw [tcWaitForPid, orExit_pass (by simp)]
  dsimp only [bind, Except.bind]
  rw [checkMax_pos hmax]
  exact ⟨_, rfl, follows_forPids_singleton (follows_sayFirst (fun i s => rfl) max 0 s)⟩

theorem follows_tcWaitForNoPid {pid : ℕ} {runs : ℕ → Bool} (hmax : 0 < max) (s : State) :
    ∃ r, tcWaitForNoPid [pid] (some max) (fun _ => runs) s = .ok r ∧
      Follows r.seen r.status (observe (fun i => !runs i) max 0) := by
  rw [tcWaitForNoPid, orExit_pass (by simp)]
  dsimp only [bind, Except.bind]
  rw [checkMax_pos hmax]
  exact ⟨_, rfl, follows_forPids_singleton
    (follows_sayFirst (fun i s => (Bool.not_not (runs i)).symm) max 0 s)⟩

theorem follows_tcWaitForActivePort {port : ℤ} {find : ℕ → Option (List Char)} (hmax : 0 < max)
    (hport : 0 < port) (s : PortState) :
    ∃ r, tcWaitForActivePort port (some max) find s = .ok (r, some (s.tcPort.getD [])) ∧
      Follows r.seen r.status (observe (fun i => (find i).isNone) max 0) := by
  rw [tcWaitForActivePort, orExit_pass (by simpa using hport)]
  dsimp only [bind, Except.bind]
  rw [checkMax_pos hmax]
  exact ⟨_, rfl, follows_countFirst (fun i s => by cases h : find i <;> simp [findPort, h]) max 0 _⟩

theorem follows_tcWaitForInactivePort {port : ℤ} {find : ℕ → Option (List Char)}
    (hmax : 0 < max) (hport : 0 < port) (s : PortState) :
    ∃ r, tcWaitForInactivePort port (some max) find s = .ok (r, some (s.tcPort.getD [])) ∧
      Follows r.seen r.status (observe (fun i => (find i).isSome) max 0) := by
  rw [tcWaitForInactivePort, orExit_pass (by simpa using hport)]
  dsimp only [bind, Except.bind]
  rw [checkMax_pos hmax]
  exact ⟨_, rfl, follows_countFirst (fun i s => rfl) max 0 _⟩

/-- Each function polls with `max` observations, the one for texts with one less. -/
theorem follows_run (w : Waiter) (hw : w.Valid (n + 1)) (s : State) :
    ∃ r, w.run (n + 1) s = .ok r ∧
      Follows r.seen r.status (observe w.awaited (if w.isFileText then n else n + 1) 0) := by
  have hmax : 0 < n + 1 := n.succ_pos
  cases w with
  | file name test holds => exact follows_tcWaitForFile hmax hw.1 hw.2 s
  | noFile name exist => exact follows_tcWaitForNoFile hmax hw s
  | fileText name text exist contains => exact follows_tcWaitForFileText hw.1 hw.2 s
  | pid pid shows => exact follows_tcWaitForPid hmax s
  | noPid pid runs => exact follows_tcWaitForNoPid hmax s
  | activePort port tcPort find =>
      obtain ⟨r, hr, hfollows⟩ := @follows_tcWaitForActivePort _ port find hmax hw ⟨s, tcPort⟩
      exact ⟨r, by rw [Waiter.run, hr]; rfl, hfollows⟩
  | inactivePort port tcPort find =>
      obtain ⟨r, hr, hfollows⟩ := @follows_tcWaitForInactivePort _ port find hmax hw ⟨s, tcPort⟩
      exact ⟨r, by rw [Waiter.run, hr]; rfl, hfollows⟩

/-- Every function makes at most `max` observations, stops at the first that holds and succeeds
if one of the first `max` holds, but `tc_wait_for_file_text` does not make the last of them. -/
theorem waiter_polls_iff (w : Waiter) (hmax : 0 < max) (hw : w.Valid max) (s : State) :
    ∃ r, w.run max s = .ok r ∧
      (Polls w.awaited max r.seen (r.status = 0) ↔
        (w.isFileText → (∃ i < max - 1, w.awaited i) ∨ w.awaited (max - 1) = false)) := by
  obtain ⟨n, rfl⟩ := Nat.exists_eq_succ_of_ne_zero hmax.ne'
  obtain ⟨r, hr, hfollows⟩ := follows_run w hw s
  refine ⟨r, hr, ?_⟩
  cases htext : w.isFileText with
  | true =>
      rw [htext, if_pos rfl] at hfollows
      rw [hfollows.polls_succ_iff]
      simp
  | false =>
      rw [htext, if_neg Bool.false_ne_true] at hfollows
      simp [hfollows.polls]

/-- A testcase in which nothing has happened. -/
def calm : State := tcSetup ⟨4711, 1, true, fun _ => "", [], [], []⟩

/-- A text that shows up at the second of three observations is found. -/
theorem waiter_polls_three :
    ∃ r, (Waiter.fileText "log" "ready" (fun _ => true) (1 ≤ ·)).run 3 calm = .ok r ∧
      Polls (1 ≤ ·) 3 r.seen (r.status = 0) := by
  obtain ⟨r, hr, hiff⟩ := waiter_polls_iff
    (.fileText "log" "ready" (fun _ => true) (1 ≤ ·)) (by decide : 0 < 3)
    ⟨by decide, 0, by decide, rfl⟩ calm
  exact ⟨r, hr, hiff.mpr fun _ => .inl ⟨1, by decide, rfl⟩⟩

/-- With one observation permitted, a text that is there from the start is not found. -/
theorem waiter_polls_fails :
    ∃ r, (Waiter.fileText "log" "ready" (fun _ => true) fun _ => true).run 1 calm = .ok r ∧
      r.seen = 0 ∧ r.status = 1 ∧ ¬Polls (fun _ => true) 1 r.seen (r.status = 0) := by
  obtain ⟨r, hr, hfollows⟩ := follows_run
    (.fileText "log" "ready" (fun _ => true) fun _ => true) (n := 0)
    ⟨by decide, 0, by decide, rfl⟩ calm
  refine ⟨r, hr, hfollows.seen_eq, ?_, fun h => ?_⟩
  · obtain rfl := Except.ok.inj hr
    rfl
  · exact absurd (hfollows.status_iff.mp (h.success_iff.mpr ⟨0, by decide, rfl⟩)) (by decide)

/-! ## The other model of `tc_wait_for_file` -/

theorem pollFile_eq (file : String) (n misses i : ℕ) (s : State) :
    pollFile file n misses s =
      ((awaitFile (fun j => i + misses ≤ j) file n i s).state,
        (awaitFile (fun j => i + misses ≤ j) file n i s).status) := by
  induction n generalizing misses i s with
  | zero => rfl
  | succ n ih =>
      cases misses with
      | zero =>
          simp only [awaitFile, pollFile, Nat.add_zero, le_refl, decide_true, if_true]
          rfl
      | succ misses =>
          have hmiss : decide (i + (misses + 1) ≤ i) = false := by simp
          have hshift : (fun j => decide (i + (misses + 1) ≤ j)) =
              fun j => decide (i + 1 + misses ≤ j) := by
            funext j
            rw [Nat.add_assoc, Nat.add_comm 1]
          rw [awaitFile]
          simp only [hmiss, Bool.false_eq_true, if_false]
          cases n with
          | zero => rfl
          | succ n =>
              rw [if_neg n.succ_ne_zero, hshift]
              exact ih misses (i + 1) _

/-- A file that is missed so often is waited for with the default arguments. -/
theorem tcWaitForFile_default (file : String) (hfile : file ≠ "") (misses : ℕ) (s : State) :
    ∃ r, tcWaitForFile file none "" (misses ≤ ·) s = .ok r ∧
      Harness.tcWaitForFile file misses s = (r.state, some r.status) := by
  refine ⟨(awaitFile (misses ≤ ·) file 10 0 s).waited, ?_, ?_⟩
  · rw [tcWaitForFile, orExit_pass (by simpa using hfile)]
    dsimp only [bind, Except.bind, checkMax]
    rw [orExit_pass (by decide)]
    rfl
  · simp only [Harness.tcWaitForFile, if_pos hfile, tcBreakIfBadRc_pass, ne_eq,
      not_true_eq_false, if_false]
    rw [pollFile_eq file 10 misses 0 s]
    simp only [Nat.zero_add]
    rfl

end AutotestClient.Harness.Waiters
