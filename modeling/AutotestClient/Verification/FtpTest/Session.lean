import AutotestClient.Model.FtpTest
import Mathlib.Tactic.Common

/-! # The login session of the ftplib driver -/

namespace AutotestClient.FtpTest

open Shared

variable {κ : Type*} {s s' : State κ} {l : Line} {a : Answer κ}

@[simp] theorem writef_conn (text : String) : (s.writef text).conn = s.conn := rfl

@[simp] theorem writef_calls (text : String) : (s.writef text).calls = s.calls := rfl

@[simp] theorem record_conn (k : Call κ) : (s.record k).conn = s.conn := rfl

@[simp] theorem record_calls (k : Call κ) : (s.record k).calls = k :: s.calls := rfl

/-! ## The session as the calls show it -/

/-- A call that neither opens nor closes a connection. -/
def Call.Keeps (k : Call κ) : Prop := k.op ≠ .connect ∧ k.op ≠ .quit

/-- Connection `c` was opened and nothing was opened or closed since. -/
def Opened (c : κ) (calls : List (Call κ)) : Prop :=
  ∃ newer args older, calls = newer ++ ⟨.connect, args, some c, true⟩ :: older ∧
    ∀ k ∈ newer, k.Keeps

/-- A login on `c` succeeded after `c` was opened, and nothing was opened or closed since. -/
def LoggedIn (c : κ) (calls : List (Call κ)) : Prop :=
  ∃ newer args older, calls = newer ++ ⟨.login, args, some c, true⟩ :: older ∧
    (∀ k ∈ newer, k.Keeps) ∧ Opened c older

/-- `logged_in` is 0 or 1, 1 only with a logged-in connection, and no operation was
called on NULL. -/
structure SessionInv (s : State κ) : Prop where
  loggedIn : s.loggedIn = 0 ∨ s.loggedIn = 1
  login : s.loggedIn = 1 → ∃ c, s.conn = some c ∧ LoggedIn c s.calls
  nonNull : ∀ k ∈ s.calls, k.op ≠ .connect → k.conn ≠ none

theorem Opened.append {c : κ} {calls : List (Call κ)} (ho : Opened c calls)
    {more : List (Call κ)} (hm : ∀ k ∈ more, k.Keeps) : Opened c (more ++ calls) := by
  obtain ⟨newer, args, older, rfl, hn⟩ := ho
  exact ⟨more ++ newer, args, older, by simp, List.forall_mem_append.mpr ⟨hm, hn⟩⟩

theorem LoggedIn.append {c : κ} {calls : List (Call κ)} (hl : LoggedIn c calls)
    {more : List (Call κ)} (hm : ∀ k ∈ more, k.Keeps) : LoggedIn c (more ++ calls) := by
  obtain ⟨newer, args, older, rfl, hn, ho⟩ := hl
  exact ⟨more ++ newer, args, older, by simp, List.forall_mem_append.mpr ⟨hm, hn⟩, ho⟩

/-! ## What one command can do to the session -/

/-- Every effect a command line has on `logged_in`, `conn` and the calls. Only `quit`
with a connection closes it. -/
inductive Change (l : Line) (s s' : State κ) : Prop where
  | quiet (more : List (Call κ)) (hquit : l.command = .quit → s.conn = none)
      (hlogged : s'.loggedIn = s.loggedIn) (hconn : s'.conn = s.conn)
      (hcalls : s'.calls = more ++ s.calls) (hmore : ∀ k ∈ more, k.Keeps ∧ k.conn = s.conn)
      (hused : more ≠ [] → s.loggedIn ≠ 0 ∨ s.conn ≠ none)
  | opened (c : κ) (args : List (Option String)) (hquit : l.command ≠ .quit)
      (hlogged : s'.loggedIn = s.loggedIn) (hnull : s.conn = none) (hconn : s'.conn = some c)
      (hcalls : s'.calls = ⟨.connect, args, some c, true⟩ :: s.calls)
  | refused (args : List (Option String)) (hquit : l.command ≠ .quit)
      (hlogged : s'.loggedIn = s.loggedIn) (hnull : s.conn = none) (hconn : s'.conn = none)
      (hcalls : s'.calls = ⟨.connect, args, none, false⟩ :: s.calls)
  | login (c : κ) (args : List (Option String)) (hquit : l.command ≠ .quit)
      (hout : s.loggedIn = 0) (hin : s'.loggedIn = 1) (hopen : s.conn = some c)
      (hconn : s'.conn = some c) (hcalls : s'.calls = ⟨.login, args, some c, true⟩ :: s.calls)
  | closed (c : κ) (hquit : l.command = .quit) (hlogged : s'.loggedIn = s.loggedIn - 1)
      (hopen : s.conn = some c) (hconn : s'.conn = none)
      (hcalls : s'.calls = ⟨.quit, [], some c, true⟩ :: s.calls)

/-- A command that only writes a reply. -/
theorem Change.of_eq (hquit : l.command = .quit → s.conn = none)
    (hlogged : s'.loggedIn = s.loggedIn) (hconn : s'.conn = s.conn)
    (hcalls : s'.calls = s.calls) : Change l s s' :=
  .quiet [] hquit hlogged hconn (by simp [hcalls]) (by simp) (by simp)

/-- A reply asks for the last response at most once more, on the same connection. -/
theorem reply_spec (t : State κ) (a : Answer κ) (r : Reply) :
    (t.reply a r).loggedIn = t.loggedIn ∧ (t.reply a r).conn = t.conn ∧
      ∃ more, (t.reply a r).calls = more ++ t.calls ∧ ∀ k ∈ more, k.Keeps ∧ k.conn = t.conn := by
  cases r with
  | plain text => exact ⟨rfl, rfl, [], rfl, by simp⟩
  | buffer text => exact ⟨rfl, rfl, [], rfl, by simp⟩
  | response text =>
      exact ⟨rfl, rfl, [⟨.lastResponse, [], t.conn, true⟩], rfl, by simp [Call.Keeps]⟩
  | size text =>
      exact ⟨rfl, rfl, [⟨.lastResponse, [], t.conn, true⟩], rfl, by simp [Call.Keeps]⟩

/-- One operation on `conn` followed by its reply. -/
theorem change_operation (op : FtpOp) (args : List (Option String)) (ok : Bool) (r : Reply)
    (hquit : l.command ≠ .quit) (hop : op ≠ .connect ∧ op ≠ .quit)
    (hused : s.loggedIn ≠ 0 ∨ s.conn ≠ none) :
    Change l s ((s.record ⟨op, args, s.conn, ok⟩).reply a r) := by
  obtain ⟨hlogged, hconn, more, hcalls, hmore⟩ := reply_spec (s.record ⟨op, args, s.conn, ok⟩) a r
  refine .quiet (more ++ [⟨op, args, s.conn, ok⟩]) (fun h => absurd h hquit) hlogged hconn
    (by rw [hcalls]; simp) ?_ (fun _ => hused)
  intro k hk
  rcases List.mem_append.mp hk with hk | hk
  · exact hmore k hk
  · rw [List.mem_singleton.mp hk]
    exact ⟨hop, rfl⟩

theorem doConnect_change (hquit : l.command ≠ .quit) : Change l s (doConnect l a s).1 := by
  unfold doConnect
  split_ifs with hconn hpar hok
  · exact .of_eq (fun h => absurd h hquit) rfl rfl rfl
  · exact .of_eq (fun h => absurd h hquit) rfl rfl rfl
  · exact .opened a.handle _ hquit rfl (by simpa using hconn) rfl rfl
  · exact .refused _ hquit rfl (by simpa using hconn) (by simpa using hconn) rfl

theorem doLogin_change (hquit : l.command ≠ .quit) : Change l s (doLogin l a s).1 := by
  unfold doLogin
  split_ifs with hlogged hconn hpar hok
  · exact .of_eq (fun h => absurd h hquit) rfl rfl rfl
  · exact .of_eq (fun h => absurd h hquit) rfl rfl rfl
  · exact .of_eq (fun h => absurd h hquit) rfl rfl rfl
  all_goals
    obtain ⟨c, hc⟩ : ∃ c, s.conn = some c := Option.ne_none_iff_exists'.mp (by simpa using hconn)
  · have hout : s.loggedIn = 0 := by simpa using hlogged
    exact .login c [l.param 0, l.param 1] hquit hout (by simp [hout]) hc hc (by simp [hc, hok])
  · have hlive : s.conn ≠ none := by simp [hc]
    exact change_operation .login [l.param 0, l.param 1] a.ok (.response "Error:FtpLogin") hquit
      (by simp) (.inr hlive)

theorem doOperation_change {op : FtpOp} {minPar : ℕ}
    {args : Line → State κ → List (Option String)} {error ok : Reply}
    (hop : op ≠ .connect ∧ op ≠ .quit) (hquit : l.command ≠ .quit) :
    Change l s (doOperation op minPar args error ok l a s).1 := by
  unfold doOperation
  split_ifs with hlogged hpar hok
  · exact .of_eq (fun h => absurd h hquit) rfl rfl rfl
  · exact .of_eq (fun h => absurd h hquit) rfl rfl rfl
  · exact change_operation op _ _ _ hquit hop (.inl hlogged)
  · exact change_operation op _ _ _ hquit hop (.inl hlogged)

theorem doMode_change (hquit : l.command ≠ .quit) : Change l s (doMode l s).1 := by
  unfold doMode
  split
  · exact .of_eq (fun h => absurd h hquit) rfl rfl rfl
  · split_ifs
    all_goals exact .of_eq (fun h => absurd h hquit) rfl rfl rfl

theorem doQuit_change (hquit : l.command = .quit) : Change l s (doQuit s).1 := by
  unfold doQuit
  split_ifs with hconn
  · exact .of_eq (fun _ => by simpa using hconn) rfl rfl rfl
  · obtain ⟨c, hc⟩ : ∃ c, s.conn = some c := Option.ne_none_iff_exists'.mp (by simpa using hconn)
    exact .closed c hquit rfl hc rfl (by simp [hc])

/-- Every dispatched command line is one of these changes. -/
theorem handlecmd_change (l : Line) (a : Answer κ) (s : State κ) :
    Change l s (handlecmd l a s).1 := by
  unfold handlecmd
  cases hc : l.command
  case connect => exact doConnect_change (by simp [hc])
  case login => exact doLogin_change (by simp [hc])
  case mode => exact doMode_change (by simp [hc])
  case quit => exact doQuit_change hc
  case action => exact .of_eq (by simp [hc]) rfl rfl rfl
  all_goals exact doOperation_change (by simp) (by simp [hc])

/-! ## The session invariant along runs -/

theorem eq_of_step {l : Line × Answer κ} (hs : (machine κ).step s l = some s') :
    s' = (handlecmd l.1 l.2 s).1 :=
  (Option.some.inj hs).symm

theorem sessionInv_init : SessionInv (machine κ).init :=
  ⟨.inl rfl, by simp [machine], by simp [machine]⟩

/-- The connection in `conn` is open, whatever commands were handled. -/
theorem opened_run {h : List (State κ × (Line × Answer κ))} (run : (machine κ).Run h s) :
    ∀ c, s.conn = some c → Opened c s.calls := by
  refine run.invariant (I := fun _ s => ∀ c, s.conn = some c → Opened c s.calls)
    (by simp [machine]) ?_
  intro h s l s' _ ho hs c hc
  rw [eq_of_step hs] at hc ⊢
  cases handlecmd_change l.1 l.2 s with
  | quiet more _ _ hconn hcalls hmore _ =>
      rw [hcalls]
      exact (ho c (by rwa [hconn] at hc)).append fun k hk => (hmore k hk).1
  | opened c' args _ _ _ hconn hcalls =>
      obtain rfl := Option.some.inj (hconn.symm.trans hc)
      exact ⟨[], args, s.calls, hcalls, by simp⟩
  | refused _ _ _ _ hconn _ =>
      rw [hconn] at hc
      cases hc
  | login c' args _ _ _ hopen hconn hcalls =>
      obtain rfl := Option.some.inj (hconn.symm.trans hc)
      rw [hcalls]
      rw [← List.singleton_append]
      exact (ho c' hopen).append (by simp [Call.Keeps])
  | closed _ _ _ _ hconn _ =>
      rw [hconn] at hc
      cases hc

/-- `quit` is dispatched on an open connection that nobody logged in on. -/
def QuitBeforeLogin (s : State κ) (l : Line) : Prop :=
  l.command = .quit ∧ s.conn ≠ none ∧ s.loggedIn = 0

instance [DecidableEq κ] (s : State κ) (l : Line) : Decidable (QuitBeforeLogin s l) :=
  inferInstanceAs (Decidable (_ ∧ _ ∧ _))

/-- A new call on a live connection keeps the calls free of NULL. -/
theorem nonNull_cons {calls : List (Call κ)} (hn : ∀ k ∈ calls, k.op ≠ .connect → k.conn ≠ none)
    {k : Call κ} (hk : k.op ≠ .connect → k.conn ≠ none) :
    ∀ j ∈ k :: calls, j.op ≠ .connect → j.conn ≠ none := by
  intro j hj
  rcases List.mem_cons.mp hj with rfl | hj
  · exact hk
  · exact hn j hj

theorem sessionInv_step (hopen : ∀ c, s.conn = some c → Opened c s.calls) (hi : SessionInv s)
    (hc : Change l s s') : SessionInv s' ↔ ¬ QuitBeforeLogin s l := by
  cases hc with
  | quiet more hquit hlogged hconn hcalls hmore hused =>
      refine iff_of_true ⟨by rw [hlogged]; exact hi.loggedIn, fun h1 => ?_, ?_⟩
        fun hq => hq.2.1 (hquit hq.1)
      · obtain ⟨c, hcon, hlog⟩ := hi.login (by rwa [hlogged] at h1)
        refine ⟨c, by rw [hconn, hcon], ?_⟩
        rw [hcalls]
        exact hlog.append fun k hk => (hmore k hk).1
      · have hlive : more ≠ [] → s.conn ≠ none := by
          intro hne
          rcases hused hne with h0 | hcon
          · obtain ⟨c, hcon, -⟩ := hi.login (hi.loggedIn.resolve_left h0)
            simp [hcon]
          · exact hcon
        intro k hk hkop
        rw [hcalls] at hk
        rcases List.mem_append.mp hk with hk | hk
        · rw [(hmore k hk).2]
          exact hlive (List.ne_nil_of_mem hk)
        · exact hi.nonNull k hk hkop
  | opened c args hquit hlogged hnull hconn hcalls =>
      refine iff_of_true ⟨by rw [hlogged]; exact hi.loggedIn, fun h1 => ?_, ?_⟩
        fun hq => hquit hq.1
      · obtain ⟨c', hcon, -⟩ := hi.login (by rwa [hlogged] at h1)
        rw [hnull] at hcon
        cases hcon
      · rw [hcalls]
        exact nonNull_cons hi.nonNull (by simp)
  | refused args hquit hlogged hnull hconn hcalls =>
      refine iff_of_true ⟨by rw [hlogged]; exact hi.loggedIn, fun h1 => ?_, ?_⟩
        fun hq => hquit hq.1
      · obtain ⟨c', hcon, -⟩ := hi.login (by rwa [hlogged] at h1)
        rw [hnull] at hcon
        cases hcon
      · rw [hcalls]
        exact nonNull_cons hi.nonNull (by simp)
  | login c args hquit hout hin hcon hconn hcalls =>
      refine iff_of_true ⟨.inr hin, fun _ => ⟨c, hconn, ?_⟩, ?_⟩ fun hq => hquit hq.1
      · exact ⟨[], args, s.calls, hcalls, by simp, hopen c hcon⟩
      · rw [hcalls]
        exact nonNull_cons hi.nonNull (by simp)
  | closed c hquit hlogged hcon hconn hcalls =>
      constructor
      · rintro hi' ⟨-, -, h0⟩
        rw [h0] at hlogged
        rcases hi'.loggedIn with h | h <;> omega
      · intro hq
        have h1 : s.loggedIn = 1 :=
          hi.loggedIn.resolve_left fun h0 => hq ⟨hquit, by simp [hcon], h0⟩
        refine ⟨.inl (by omega), fun h => by omega, ?_⟩
        rw [hcalls]
        exact nonNull_cons hi.nonNull (by simp)

/-- The session invariant holds in every state of a run exactly if the run never
dispatches `quit` on a connection that is open but not logged in. -/
theorem handlecmd_session_iff {h : List (State κ × (Line × Answer κ))}
    (run : (machine κ).Run h s) :
    (∀ t ∈ Machine.visited h s, SessionInv t) ↔ ∀ e ∈ h, ¬ QuitBeforeLogin e.1 e.2.1 := by
  refine run.forall_visited_iff (I := SessionInv) (C := fun s l => ¬ QuitBeforeLogin s l.1)
    sessionInv_init ?_
  intro h s l s' run hi hs
  rw [eq_of_step hs]
  exact sessionInv_step (opened_run run) hi (handlecmd_change l.1 l.2 s)

/-- After `host`, `user` and `quit` the driver is back at its start, ready for `host`. -/
theorem handlecmd_session_relogin :
    ∃ h s, (machine ℕ).Run h s ∧ s.conn = some 2 ∧ (∀ e ∈ h, ¬ QuitBeforeLogin e.1 e.2.1) ∧
      ∀ t ∈ Machine.visited h s, SessionInv t := by
  let labels : List (Line × Answer ℕ) :=
    [(⟨"host", ["server"]⟩, ⟨true, 1, "", "", 0⟩), (⟨"user", ["u", "p"]⟩, ⟨true, 0, "", "", 0⟩),
      (⟨"quit", []⟩, ⟨true, 0, "", "", 0⟩), (⟨"host", ["server"]⟩, ⟨true, 2, "", "", 0⟩)]
  have run := (machine ℕ).run_of_replay labels rfl
  exact ⟨_, _, run, rfl, by decide, (handlecmd_session_iff run).mpr (by decide)⟩

/-- `host`, `quit`, `pwd`: the second command leaves `logged_in` at -1 and the third
calls `FtpPwd` with NULL. -/
theorem handlecmd_session_fails :
    ∃ h s, (machine ℕ).Run h s ∧ s.loggedIn = -1 ∧ ⟨.pwd, [], none, true⟩ ∈ s.calls ∧
      ¬ ∀ t ∈ Machine.visited h s, SessionInv t := by
  let labels : List (Line × Answer ℕ) :=
    [(⟨"host", ["server"]⟩, ⟨true, 1, "", "", 0⟩), (⟨"quit", []⟩, ⟨true, 0, "", "", 0⟩),
      (⟨"pwd", []⟩, ⟨true, 0, "257", "", 0⟩)]
  have run := (machine ℕ).run_of_replay labels rfl
  refine ⟨_, _, run, rfl, by decide, fun hall => ?_⟩
  have hlast := (hall _ List.mem_cons_self).loggedIn
  revert hlast
  decide

end AutotestClient.FtpTest
