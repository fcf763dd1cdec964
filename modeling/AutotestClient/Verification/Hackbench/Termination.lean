import AutotestClient.Verification.Hackbench.Delivery

/-! # Every run of `hackbench` ends

Each step lowers a measure, and as long as `main` has not ended some worker, or `main`
itself, can go on. -/

namespace AutotestClient.Hackbench

open Shared

variable {c : Config} {s s' : State c} {l : Label c} {h : List (State c × Label c)}

/-! ## The measure -/

/-- The loops of `main` that are left. -/
def MainPc.left (c : Config) : MainPc → ℕ
  | .creating k => 3 * c.totalChildren + 3 - k
  | .reading i => 2 * c.totalChildren + 2 - i
  | .reaping i => c.totalChildren + 1 - i
  | .exited _ => 0

def Phase.left : Phase → ℕ
  | .unborn => 6
  | .ready => 5
  | .polling => 4
  | .running => 3
  | .exited => 2
  | .killed => 1
  | .reaped => 0

/-- The bytes a sender has written to all its receivers. -/
def Pump.sent (p : Pump c) : ℕ := dataSize * (c.numFds * p.i + p.j) + p.done

def Pump.left (p : Pump c) : ℕ := dataSize * (c.numFds * c.loops) - p.sent

def Receipt.left (c : Config) (r : Receipt) : ℕ := dataSize * c.numPackets - r.received

def State.left (s : State c) : ℕ :=
  s.main.left c + total Phase.left s.phase + total (total Pump.left) s.pump +
    total (total (Receipt.left c)) s.receipt

theorem Pump.sent_add {p : Pump c} {ret : ℕ} (hret : p.done + ret ≤ dataSize) :
    (p.add ret).sent = p.sent + ret := by
  unfold Pump.add
  split
  · simp only [Pump.sent, Nat.add_assoc]
  · have hfull : p.done + ret = dataSize := by omega
    simp only [Pump.sent, Nat.add_assoc, hfull]
    unfold Pump.next
    split
    · simp only [Nat.add_zero, ← Nat.mul_succ, Nat.succ_eq_add_one, Nat.add_assoc]
    · have hj := p.j.isLt
      have hlast : (p.j : ℕ) + 1 = c.numFds := by omega
      simp only [Nat.add_zero, Nat.mul_succ, ← hlast]
      simp only [Nat.mul_add, Nat.add_assoc, Nat.mul_one]

theorem Pump.Ok.sent_le {p : Pump c} (hp : p.Ok) : p.sent ≤ dataSize * (c.numFds * c.loops) := by
  unfold Pump.sent
  rcases hp with ⟨hi, hdone⟩ | ⟨hi, hj, hdone⟩
  · have hj := p.j.isLt
    have hloops := Nat.mul_le_mul_left c.numFds (Nat.succ_le_of_lt hi)
    rw [Nat.mul_succ] at hloops
    have hslot : c.numFds * p.i + p.j + 1 ≤ c.numFds * c.loops := by omega
    have hbytes := Nat.mul_le_mul_left dataSize hslot
    rw [Nat.mul_succ] at hbytes
    omega
  · rw [hi, hj, hdone, Nat.add_zero, Nat.add_zero]

theorem Receipt.Ok.received_le {r : Receipt} (hr : r.Ok c) :
    r.received ≤ dataSize * c.numPackets := by
  rcases Nat.lt_or_ge r.i c.numPackets with hlt | hge
  · exact (Receipt.received_lt hr hlt).le
  · exact (Receipt.received_over hr hge).le

/-- The counter of each loop of `main` stays within its bound. -/
def MainPc.Bounded (c : Config) : MainPc → Prop
  | .creating k => k ≤ c.totalChildren
  | .reading i | .reaping i => i ≤ c.totalChildren
  | .exited _ => True

theorem bounded_step (hb : s.main.Bounded c) (hs : Step s l s') : s'.main.Bounded c := by
  cases hs with
  | @create w hmain => exact number_lt w
  | readReady hmain hbytes hi => exact hi
  | reap hmain hi hph hnext => exact hi
  | created | wake => exact Nat.zero_le _
  | forkFails | reapKilled | report => trivial
  | _ => exact hb

theorem bounded_run (run : (machine c).Run h s) : s.main.Bounded c :=
  run.invariant (I := fun _ s => s.main.Bounded c) (Nat.zero_le _)
    fun _ _ _ _ _ hb hs => bounded_step hb (.of_step hs)

/-! ## Each step lowers it -/

theorem left_enter (w : Worker c) (ph : Phase) :
    (s.enter w ph).left + (s.phase w).left = s.left + ph.left := by
  have htotal := total_update Phase.left s.phase w ph
  simp only [State.left, State.enter]
  omega

theorem left_main (pc : MainPc) (ready wake : ℕ) :
    ({ s with main := pc, readyBytes := ready, wakeBytes := wake } : State c).left +
      s.main.left c = s.left + pc.left c := by
  simp only [State.left]
  omega

theorem left_setPump (g : Fin c.numGroups) (i : Fin c.numFds) (p : Pump c) :
    (s.setPump g i p).left + (s.pump g i).left = s.left + p.left := by
  have hgroup := total_update (total Pump.left) s.pump g (Function.update (s.pump g) i p)
  have hsender := total_update Pump.left (s.pump g) i p
  simp only [State.left, State.setPump]
  omega

theorem left_setReceipt (g : Fin c.numGroups) (j : Fin c.numFds) (r : Receipt) :
    (s.setReceipt g j r).left + (s.receipt g j).left c = s.left + r.left c := by
  have hgroup := total_update (total (Receipt.left c)) s.receipt g
    (Function.update (s.receipt g) j r)
  have hreceiver := total_update (Receipt.left c) (s.receipt g) j r
  simp only [State.left, State.setReceipt]
  omega

theorem left_setChannel (g : Fin c.numGroups) (j : Fin c.numFds) (bytes : ℕ) :
    (s.setChannel g j bytes).left = s.left := rfl

theorem left_write {g : Fin c.numGroups} {i : Fin c.numFds} {ret bytes : ℕ}
    {j : Fin c.numFds} (hwrites : s.writes g i) (hpos : 0 < ret)
    (hret : (s.pump g i).done + ret ≤ dataSize) :
    ((s.setChannel g j bytes).setPump g i ((s.pump g i).add ret)).left < s.left := by
  have hset := left_setPump (s := s.setChannel g j bytes) g i ((s.pump g i).add ret)
  have hsent := Pump.sent_add hret
  have hle := (Pump.add_ok hwrites.2.2 ret).sent_le
  have hpump : (s.setChannel g j bytes).pump = s.pump := rfl
  rw [hpump, left_setChannel] at hset
  simp only [Pump.left] at hset
  omega

theorem left_read {g : Fin c.numGroups} {j : Fin c.numFds} {ret bytes : ℕ}
    (hreads : s.reads g j) (hpos : 0 < ret) (hret : (s.receipt g j).done + ret ≤ dataSize) :
    ((s.setChannel g j bytes).setReceipt g j ((s.receipt g j).add ret)).left < s.left := by
  have hset := left_setReceipt (s := s.setChannel g j bytes) g j ((s.receipt g j).add ret)
  have hreceived := Receipt.received_add hret
  have hle := (Receipt.add_ok hreads.2.2 ret).received_le
  have hreceipt : (s.setChannel g j bytes).receipt = s.receipt := rfl
  rw [hreceipt, left_setChannel] at hset
  simp only [Receipt.left] at hset
  omega

/-- Every step but a read at the end of file makes progress. -/
theorem left_step (hb : Births s) (hm : s.main.Bounded c) (hl : Ledger s) (he : Ends s)
    (hs : Step s l s') : s'.left < s.left := by
  cases hs with
  | @create w hmain =>
      have hunborn : s.phase w = .unborn :=
        (hb (number w) (by simp [hmain, MainPc.created?]) w).mpr le_rfl
      have henter := left_enter (s := s) w .ready
      have hset := left_main (s := s.enter w .ready) (.creating (number w + 1))
        s.readyBytes s.wakeBytes
      have hlt := number_lt w
      simp only [enter_main, hmain, hunborn, MainPc.left, Phase.left] at henter hset
      refine Nat.lt_of_add_lt_add_right (n := 3 * c.totalChildren + 3 - number w) ?_
      refine hset.trans_lt ?_
      omega
  | @forkFails k hmain hk =>
      have hset := left_main (s := s) (.exited c.forkStatus) s.readyBytes s.wakeBytes
      simp only [hmain, MainPc.left] at hset
      omega
  | @created k hmain hk =>
      have hset := left_main (s := s) (.reading 0) s.readyBytes s.wakeBytes
      simp only [hmain, MainPc.left, MainPc.Bounded] at hset hm
      omega
  | @ready w hrun hph hroom =>
      have henter := left_enter (s := s) w .polling
      simp only [hph, Phase.left] at henter
      change (s.enter w .polling).left < s.left
      omega
  | @readReady i n hmain hbytes hi =>
      have hset := left_main (s := s) (.reading (i + 1)) n s.wakeBytes
      simp only [hmain, MainPc.left] at hset
      omega
  | @wake i hmain hi =>
      have hset := left_main (s := s) (.reaping 0) s.readyBytes (s.wakeBytes + 1)
      simp only [hmain, MainPc.left, MainPc.Bounded] at hset hm
      omega
  | @poll w hrun hph hwake =>
      have henter := left_enter (s := s) w .running
      simp only [hph, Phase.left] at henter
      omega
  | write hwrites hopen hpos hret hroom => exact left_write hwrites hpos hret
  | @sigpipe g i hwrites hclosed =>
      have henter := left_enter (s := s) (.sender, g, i) .killed
      simp only [hwrites.2.1, Phase.left] at henter
      omega
  | read hreads hpos hret hbytes => exact left_read hreads hpos hret
  | readEof hreads hempty hclosed => exact absurd hclosed (he.not_eof hl hreads hempty)
  | @exit w hrun hph hover =>
      have henter := left_enter (s := s) w .exited
      simp only [hph, Phase.left] at henter
      omega
  | @reap w i hmain hi hph hnext =>
      have henter := left_enter (s := s) w .reaped
      have hset := left_main (s := s.enter w .reaped) (.reaping (i + 1)) s.readyBytes s.wakeBytes
      simp only [enter_main, hmain, hph, MainPc.left, Phase.left] at henter hset
      refine Nat.lt_of_add_lt_add_right (n := c.totalChildren + 1 - i) ?_
      refine hset.trans_lt ?_
      omega
  | @reapKilled w i hmain hi hph => exact absurd hph (he.alive w)
  | @report i hmain hi =>
      have hset := left_main (s := s) (.exited 0) s.readyBytes s.wakeBytes
      simp only [hmain, MainPc.left, MainPc.Bounded] at hset hm
      omega

/-- The steps a run can have. -/
def Config.maxSteps (c : Config) : ℕ :=
  9 * c.totalChildren + 3 +
    c.numGroups * (c.numFds * (dataSize * (c.numFds * c.loops) + dataSize * c.numPackets))

theorem left_init : (machine c).init.left = c.maxSteps := by
  have hphase : total Phase.left (machine c).init.phase = c.totalChildren * 6 := by
    rw [← card_worker]
    exact total_eq_card_mul fun _ => rfl
  have hpump : total (total Pump.left) (machine c).init.pump =
      c.numGroups * (c.numFds * (dataSize * (c.numFds * c.loops))) := by
    refine (total_eq_card_mul fun g => total_eq_card_mul fun i => ?_).trans
      (by rw [Fintype.card_fin, Fintype.card_fin])
    rfl
  have hreceipt : total (total (Receipt.left c)) (machine c).init.receipt =
      c.numGroups * (c.numFds * (dataSize * c.numPackets)) := by
    refine (total_eq_card_mul fun g => total_eq_card_mul fun j => ?_).trans
      (by rw [Fintype.card_fin, Fintype.card_fin])
    rfl
  have hmain : (machine c).init.main.left c = 3 * c.totalChildren + 3 := rfl
  rw [State.left, hmain, hphase, hpump, hreceipt, Config.maxSteps, Nat.mul_add c.numFds,
    Nat.mul_add c.numGroups]
  omega

theorem length_le (hsize : c.numFds * c.loops < 2 ^ 32) (run : (machine c).Run h s) :
    h.length ≤ c.maxSteps := by
  have hsum := run.length_add_le (μ := State.left) fun _ _ _ _ run hs =>
    left_step (births_run run) (bounded_run run) (ledger_run run) (ends_run hsize run)
      (.of_step hs)
  rw [left_init] at hsum
  omega

end AutotestClient.Hackbench
