import AutotestClient.Verification.Hackbench.Barrier

/-! # What the channels of `hackbench` deliver

All bytes written to a channel are read by its receiver or still in the channel. From
this it follows that a `read` never meets the end of file, and a `write` never a closed
read end. -/

namespace AutotestClient.Hackbench

open Shared

variable {c : Config} {s s' : State c} {l : Label c} {h : List (State c × Label c)}

/-! ## The loop variables -/

/-- The loop is over, or in the middle of a message. -/
def Pump.Ok (p : Pump c) : Prop :=
  (p.i < c.loops ∧ p.done < dataSize) ∨ (p.i = c.loops ∧ (p.j : ℕ) = 0 ∧ p.done = 0)

def Receipt.Ok (c : Config) (r : Receipt) : Prop :=
  (r.i < c.numPackets ∧ r.done < dataSize) ∨ (r.i = c.numPackets ∧ r.done = 0)

theorem Pump.next_ok {p : Pump c} (hi : p.i < c.loops) : p.next.Ok := by
  unfold Pump.next Pump.Ok
  split
  · exact .inl ⟨hi, by simp [dataSize]⟩
  · rcases Nat.lt_or_ge (p.i + 1) c.loops with hlt | hge
    · exact .inl ⟨hlt, by simp [dataSize]⟩
    · exact .inr ⟨by simp only; omega, rfl, rfl⟩

theorem Pump.add_ok {p : Pump c} (hi : p.i < c.loops) (ret : ℕ) : (p.add ret).Ok := by
  unfold Pump.add
  split
  · exact .inl ⟨hi, ‹_›⟩
  · exact Pump.next_ok hi

theorem Receipt.add_ok {r : Receipt} (hi : r.i < c.numPackets) (ret : ℕ) :
    (r.add ret).Ok c := by
  unfold Receipt.add
  split
  · exact .inl ⟨hi, ‹_›⟩
  · rcases Nat.lt_or_ge (r.i + 1) c.numPackets with hlt | hge
    · exact .inl ⟨hlt, by simp [dataSize]⟩
    · exact .inr ⟨by simp only; omega, rfl⟩

theorem Pump.written_start {p : Pump c} (hi : p.i = 0) (hj : (p.j : ℕ) = 0) (hdone : p.done = 0)
    (k : Fin c.numFds) : p.written k = 0 := by
  simp [Pump.written, hi, hdone, Fin.lt_def, hj]

/-- A whole message to `j` brings the sender to the next one. -/
theorem Pump.written_next (p : Pump c) (k : Fin c.numFds) :
    p.next.written k = dataSize * (p.i + if k < p.j then 1 else 0) +
      if k = p.j then dataSize else 0 := by
  have hk := k.isLt
  unfold Pump.next
  split
  · rcases lt_trichotomy k p.j with hlt | rfl | hgt
    · have hlt' : (k : ℕ) < p.j := hlt
      have hnext : (k : ℕ) < p.j + 1 := by omega
      have hne : (k : ℕ) ≠ p.j + 1 := by omega
      simp [Pump.written, Fin.lt_def, Fin.ext_iff, hlt', hnext, hne, Nat.ne_of_lt hlt']
    · simp [Pump.written, Fin.lt_def, Fin.ext_iff, Nat.mul_add]
    · have hgt' : (p.j : ℕ) < k := hgt
      have hnot : ¬ (k : ℕ) < p.j + 1 := by omega
      have hnot' : ¬ (k : ℕ) < p.j := by omega
      simp [Pump.written, Fin.lt_def, Fin.ext_iff, hnot, hnot', Nat.ne_of_gt hgt']
  · have hle : (k : ℕ) ≤ p.j := by omega
    rcases Nat.lt_or_eq_of_le hle with hlt | heq
    · simp [Pump.written, Fin.lt_def, Fin.ext_iff, hlt, Nat.ne_of_lt hlt]
    · simp [Pump.written, Fin.lt_def, Fin.ext_iff, heq, Nat.mul_add]

/-- `ret` more bytes went to the receiver the sender was at, and to no other. -/
theorem Pump.written_add {p : Pump c} {ret : ℕ} (hret : p.done + ret ≤ dataSize)
    (k : Fin c.numFds) :
    (p.add ret).written k = p.written k + if k = p.j then ret else 0 := by
  unfold Pump.add
  split
  · by_cases hk : k = p.j
    · simp [Pump.written, hk, Nat.add_assoc]
    · simp [Pump.written, hk]
  · have hfull : p.done + ret = dataSize := by omega
    rw [Pump.written_next, Pump.written, Nat.add_assoc]
    by_cases hk : k = p.j
    · simp [hk, hfull]
    · simp [hk]

theorem Receipt.received_add {r : Receipt} {ret : ℕ} (hret : r.done + ret ≤ dataSize) :
    (r.add ret).received = r.received + ret := by
  unfold Receipt.add
  split
  · simp [Receipt.received, Nat.add_assoc]
  · have hfull : r.done + ret = dataSize := by omega
    simp only [Receipt.received, Nat.mul_succ, Nat.add_assoc, hfull, Nat.add_zero]

/-- No sender writes more than its `loops` messages to a receiver, -/
theorem Pump.Ok.written_le {p : Pump c} (hp : p.Ok) (k : Fin c.numFds) :
    p.written k ≤ dataSize * c.loops := by
  unfold Pump.written
  rcases hp with ⟨hi, hdone⟩ | ⟨hi, hj, hdone⟩
  · have hle := Nat.mul_le_mul_left dataSize (Nat.succ_le_of_lt hi)
    rw [Nat.mul_succ] at hle
    rcases lt_trichotomy k p.j with hlt | rfl | hgt
    · simp only [hlt, if_true, hlt.ne, if_false, Nat.mul_add]
      omega
    · simp only [lt_irrefl, if_false, if_true, Nat.add_zero]
      omega
    · simp only [hgt.not_gt, hgt.ne', if_false, Nat.add_zero]
      omega
  · simp only [hi, hdone, ite_self, Nat.add_zero, Fin.lt_def, hj, Nat.not_lt_zero, if_false]
    exact le_rfl

/-- and one that is not done has more to write to the receiver it is at. -/
theorem Pump.written_lt {p : Pump c} (hp : p.Ok) (hi : p.i < c.loops) :
    p.written p.j < dataSize * c.loops := by
  have hdone : p.done < dataSize := by
    rcases hp with ⟨-, hdone⟩ | ⟨heq, -, -⟩
    · exact hdone
    · omega
  have hle := Nat.mul_le_mul_left dataSize (Nat.succ_le_of_lt hi)
  rw [Nat.mul_succ] at hle
  simp only [Pump.written, lt_irrefl, if_false, if_true, Nat.add_zero]
  omega

theorem Pump.written_done {p : Pump c} (hp : p.Ok) (hi : c.loops ≤ p.i) (k : Fin c.numFds) :
    p.written k = dataSize * c.loops := by
  rcases hp with ⟨hlt, -⟩ | ⟨heq, hj, hdone⟩
  · omega
  · simp [Pump.written, heq, hdone, Fin.lt_def, hj]

/-! ## The books of the channels -/

/-- Each channel holds what its group has written to it and its receiver not yet read. -/
structure Ledger (s : State c) : Prop where
  pump : ∀ g i, (s.pump g i).Ok
  receipt : ∀ g j, (s.receipt g j).Ok c
  balance : ∀ g j, total (fun p => p.written j) (s.pump g) =
    s.channel g j + (s.receipt g j).received

theorem ledger_init : Ledger (machine c).init := by
  constructor
  · intro g i
    rcases Nat.eq_zero_or_pos c.loops with h0 | hpos
    · exact .inr ⟨h0.symm, rfl, rfl⟩
    · exact .inl ⟨hpos, by simp [machine, dataSize]⟩
  · intro g j
    rcases Nat.eq_zero_or_pos c.numPackets with h0 | hpos
    · exact .inr ⟨h0.symm, rfl⟩
    · exact .inl ⟨hpos, by simp [machine, dataSize]⟩
  · intro g j
    refine (total_eq_zero fun i => ?_).trans (by simp [machine, Receipt.received])
    exact Pump.written_start rfl rfl rfl j

/-- The ledger looks at the transfers only. -/
theorem Ledger.frame (hl : Ledger s) (hp : s'.pump = s.pump) (hr : s'.receipt = s.receipt)
    (hc : s'.channel = s.channel) : Ledger s' := by
  constructor
  · rw [hp]
    exact hl.pump
  · rw [hr]
    exact hl.receipt
  · rw [hp, hr, hc]
    exact hl.balance

theorem ledger_write (hl : Ledger s) {g : Fin c.numGroups} {i : Fin c.numFds} {ret : ℕ}
    (hwrites : s.writes g i) (hret : (s.pump g i).done + ret ≤ dataSize) :
    Ledger ((s.setChannel g (s.pump g i).j (s.channel g (s.pump g i).j + ret)).setPump g i
      ((s.pump g i).add ret)) := by
  constructor
  · intro g' i'
    by_cases hg : g' = g
    · subst g'
      by_cases hi : i' = i
      · subst i'
        simpa [State.setPump, State.setChannel] using Pump.add_ok hwrites.2.2 ret
      · simpa [State.setPump, State.setChannel, hi] using hl.pump g i'
    · simpa [State.setPump, State.setChannel, hg] using hl.pump g' i'
  · exact hl.receipt
  · intro g' k
    by_cases hg : g' = g
    · subst g'
      have hbalance := hl.balance g k
      have htotal := total_update (fun p => Pump.written p k) (s.pump g) i ((s.pump g i).add ret)
      simp only [Pump.written_add hret k] at htotal
      by_cases hk : k = (s.pump g i).j
      · simp only [hk, if_true] at htotal hbalance ⊢
        simp only [State.setPump, State.setChannel, Function.update_self]
        omega
      · simp only [hk, if_false] at htotal ⊢
        simp only [State.setPump, State.setChannel, Function.update_self,
          Function.update_of_ne hk]
        omega
    · simpa [State.setPump, State.setChannel, hg] using hl.balance g' k

theorem ledger_read (hl : Ledger s) {g : Fin c.numGroups} {j : Fin c.numFds} {ret : ℕ}
    (hreads : s.reads g j) (hret : (s.receipt g j).done + ret ≤ dataSize)
    (hbytes : ret ≤ s.channel g j) :
    Ledger ((s.setChannel g j (s.channel g j - ret)).setReceipt g j ((s.receipt g j).add ret)) := by
  constructor
  · exact hl.pump
  · intro g' j'
    by_cases hg : g' = g
    · subst g'
      by_cases hj : j' = j
      · subst j'
        simpa [State.setReceipt, State.setChannel] using Receipt.add_ok hreads.2.2 ret
      · simpa [State.setReceipt, State.setChannel, hj] using hl.receipt g j'
    · simpa [State.setReceipt, State.setChannel, hg] using hl.receipt g' j'
  · intro g' k
    have hbalance := hl.balance g' k
    by_cases hg : g' = g
    · subst g'
      by_cases hk : k = j
      · subst k
        simp only [State.setReceipt, State.setChannel, Function.update_self,
          Receipt.received_add hret]
        omega
      · simpa [State.setReceipt, State.setChannel, hk] using hbalance
    · simpa [State.setReceipt, State.setChannel, hg] using hbalance

/-- A read of nothing leaves the receiver where it is. -/
theorem Receipt.add_zero {r : Receipt} (hr : r.Ok c) (hi : r.i < c.numPackets) :
    r.add 0 = r := by
  rcases hr with ⟨-, hdone⟩ | ⟨heq, -⟩
  · simp [Receipt.add, hdone]
  · omega

theorem ledger_readEof (hl : Ledger s) {g : Fin c.numGroups} {j : Fin c.numFds}
    (hreads : s.reads g j) : Ledger (s.setReceipt g j ((s.receipt g j).add 0)) := by
  rw [Receipt.add_zero (hl.receipt g j) hreads.2.2]
  exact hl.frame rfl (by simp [State.setReceipt]) rfl

theorem ledger_step (hl : Ledger s) (hs : Step s l s') : Ledger s' := by
  cases hs with
  | write hwrites hopen hpos hret hroom => exact ledger_write hl hwrites hret
  | read hreads hpos hret hbytes => exact ledger_read hl hreads hret hbytes
  | readEof hreads hempty hclosed => exact ledger_readEof hl hreads
  | _ => exact hl.frame rfl rfl rfl

theorem ledger_run (run : (machine c).Run h s) : Ledger s :=
  run.invariant (I := fun _ s => Ledger s) ledger_init
    fun _ _ _ _ _ hl hs => ledger_step hl (.of_step hs)

/-! ## No early end of a channel -/

/-- Workers end by the end of their loops only. -/
structure Ends (s : State c) : Prop where
  finished : ∀ w, (s.phase w).gone → s.loopOver w
  alive : ∀ w, s.phase w ≠ .killed

theorem Config.numPackets_le (c : Config) : c.numPackets ≤ c.numFds * c.loops :=
  Nat.mod_le _ _

theorem Config.numPackets_eq (hsize : c.numFds * c.loops < 2 ^ 32) :
    c.numPackets = c.numFds * c.loops :=
  Nat.mod_eq_of_lt hsize

/-- A receiver whose loop is over has read `dataSize` bytes for each of its packets. -/
theorem Receipt.received_over {r : Receipt} (hr : r.Ok c) (hi : c.numPackets ≤ r.i) :
    r.received = dataSize * c.numPackets := by
  rcases hr with ⟨hlt, -⟩ | ⟨heq, hdone⟩
  · omega
  · simp [Receipt.received, heq, hdone]

theorem Receipt.received_lt {r : Receipt} (hr : r.Ok c) (hi : r.i < c.numPackets) :
    r.received < dataSize * c.numPackets := by
  rcases hr with ⟨-, hdone⟩ | ⟨heq, -⟩
  · have hle := Nat.mul_le_mul_left dataSize (Nat.succ_le_of_lt hi)
    rw [Nat.mul_succ] at hle
    simp only [Receipt.received]
    omega
  · omega

/-- While a sender has more for it, a receiver has more to read. -/
theorem Ledger.receiver_not_over (hl : Ledger s) (hsize : c.numFds * c.loops < 2 ^ 32)
    {g : Fin c.numGroups} {i : Fin c.numFds} (hi : (s.pump g i).i < c.loops) :
    (s.receipt g (s.pump g i).j).i < c.numPackets := by
  by_contra hover
  have hreceived := Receipt.received_over (hl.receipt g (s.pump g i).j) (Nat.le_of_not_lt hover)
  have hlt : total (fun p => p.written (s.pump g i).j) (s.pump g) <
      Fintype.card (Fin c.numFds) * (dataSize * c.loops) :=
    total_lt_card_mul (fun k => (hl.pump g k).written_le _) (Pump.written_lt (hl.pump g i) hi)
  have hbalance := hl.balance g (s.pump g i).j
  rw [hreceived, Config.numPackets_eq hsize] at hbalance
  rw [Fintype.card_fin, Nat.mul_left_comm] at hlt
  omega

theorem Ends.not_readEndClosed (he : Ends s) (hl : Ledger s)
    (hsize : c.numFds * c.loops < 2 ^ 32) {g : Fin c.numGroups} {i : Fin c.numFds}
    (hwrites : s.writes g i) : ¬ s.readEndClosed g (s.pump g i).j := by
  intro hclosed
  simp only [State.readEndClosed, Bool.and_eq_true] at hclosed
  have hover := he.finished _ hclosed.2
  simp only [State.loopOver, decide_eq_true_eq] at hover
  exact absurd (hl.receiver_not_over hsize hwrites.2.2) (Nat.not_lt_of_le hover)

/-- When all senders of a group are done, an empty channel has delivered everything. -/
theorem Ends.not_eof (he : Ends s) (hl : Ledger s) {g : Fin c.numGroups} {j : Fin c.numFds}
    (hreads : s.reads g j) (hempty : s.channel g j = 0) : ¬ s.writeEndsClosed g j := by
  intro hclosed
  have hwritten : total (fun p => p.written j) (s.pump g) =
      Fintype.card (Fin c.numFds) * (dataSize * c.loops) := by
    refine total_eq_card_mul fun i => ?_
    have hover := he.finished _ (hclosed.2.1 i)
    simp only [State.loopOver, decide_eq_true_eq] at hover
    exact Pump.written_done (hl.pump g i) hover j
  have hbalance := hl.balance g j
  have hlt := Receipt.received_lt (hl.receipt g j) hreads.2.2
  have hle := Nat.mul_le_mul_left dataSize c.numPackets_le
  rw [hwritten, hempty, Fintype.card_fin, Nat.mul_left_comm] at hbalance
  omega

/-- A move of phases that ends no worker. -/
theorem Ends.frame (he : Ends s) (hpump : s'.pump = s.pump) (hreceipt : s'.receipt = s.receipt)
    (hgone : ∀ w, (s'.phase w).gone → (s.phase w).gone ∨ s.loopOver w)
    (halive : ∀ w, s'.phase w ≠ .killed) : Ends s' := by
  refine ⟨fun w hw => ?_, halive⟩
  have hover : s.loopOver w := by
    rcases hgone w hw with h | h
    · exact he.finished w h
    · exact h
  obtain ⟨r, g, i⟩ := w
  cases r with
  | receiver => simpa [State.loopOver, hreceipt] using hover
  | sender => simpa [State.loopOver, hpump] using hover

theorem Ends.enter (he : Ends s) {w : Worker c} {ph : Phase} (hph : ph ≠ .killed)
    (hgone : ph.gone → (s.phase w).gone ∨ s.loopOver w) : Ends (s.enter w ph) := by
  refine he.frame rfl rfl (fun v => ?_) (fun v => ?_)
  · exact enter_forall (P := fun v ph => ph.gone → (s.phase v).gone ∨ s.loopOver v)
      (fun v _ hv => .inl hv) hgone v
  · exact enter_forall (P := fun _ ph => ph ≠ .killed) (fun v _ => he.alive v) hph v

/-- The changed variables belong to a worker that has not ended. -/
theorem ends_write (he : Ends s) {g : Fin c.numGroups} {i j : Fin c.numFds} {bytes : ℕ}
    {p : Pump c} (hwrites : s.writes g i) : Ends ((s.setChannel g j bytes).setPump g i p) := by
  refine ⟨fun w hw => ?_, he.alive⟩
  have hover := he.finished w hw
  obtain ⟨r, g', i'⟩ := w
  cases r with
  | receiver => exact hover
  | sender =>
      have hne : ¬ (g' = g ∧ i' = i) := by
        rintro ⟨rfl, rfl⟩
        have hgone : (s.phase (.sender, g', i')).gone := hw
        simp [hwrites.2.1, Phase.gone] at hgone
      by_cases hg : g' = g
      · subst g'
        have hi : i' ≠ i := fun h => hne ⟨rfl, h⟩
        simpa [State.loopOver, State.setPump, State.setChannel, hi] using hover
      · simpa [State.loopOver, State.setPump, State.setChannel, hg] using hover

theorem ends_read (he : Ends s) {g : Fin c.numGroups} {j : Fin c.numFds} {bytes : ℕ}
    {r : Receipt} (hreads : s.reads g j) :
    Ends ((s.setChannel g j bytes).setReceipt g j r) := by
  refine ⟨fun w hw => ?_, he.alive⟩
  have hover := he.finished w hw
  obtain ⟨role, g', j'⟩ := w
  cases role with
  | sender => exact hover
  | receiver =>
      have hne : ¬ (g' = g ∧ j' = j) := by
        rintro ⟨rfl, rfl⟩
        have hgone : (s.phase (.receiver, g', j')).gone := hw
        simp [hreads.2.1, Phase.gone] at hgone
      by_cases hg : g' = g
      · subst g'
        have hj : j' ≠ j := fun h => hne ⟨rfl, h⟩
        simpa [State.loopOver, State.setReceipt, State.setChannel, hj] using hover
      · simpa [State.loopOver, State.setReceipt, State.setChannel, hg] using hover

/-- `Ends` does not look at `main` and its two counters. -/
theorem Ends.main (he : Ends s) (pc : MainPc) (ready wake : ℕ) :
    Ends { s with main := pc, readyBytes := ready, wakeBytes := wake } :=
  he.frame rfl rfl (fun _ hw => .inl hw) he.alive

theorem ends_step (he : Ends s) (hl : Ledger s) (hsize : c.numFds * c.loops < 2 ^ 32)
    (hs : Step s l s') : Ends s' := by
  cases hs with
  | create hmain => exact (he.enter (by simp) (by simp [Phase.gone])).main _ _ _
  | forkFails hmain hk => exact he.main _ _ _
  | created hmain hk => exact he.main _ _ _
  | ready hrun hph hroom => exact (he.enter (by simp) (by simp [Phase.gone])).main _ _ _
  | readReady hmain hbytes hi => exact he.main _ _ _
  | wake hmain hi => exact he.main _ _ _
  | poll hrun hph hwake => exact he.enter (by simp) (by simp [Phase.gone])
  | write hwrites hopen hpos hret hroom => exact ends_write he hwrites
  | sigpipe hwrites hclosed => exact absurd hclosed (he.not_readEndClosed hl hsize hwrites)
  | read hreads hpos hret hbytes => exact ends_read he hreads
  | readEof hreads hempty hclosed => exact absurd hclosed (he.not_eof hl hreads hempty)
  | exit hrun hph hover => exact he.enter (by simp) (fun _ => .inr hover)
  | reap hmain hi hph hnext =>
      exact (he.enter (by simp) (fun _ => .inl (by simp [hph, Phase.gone]))).main _ _ _
  | @reapKilled w i hmain hi hph => exact absurd hph (he.alive w)
  | report hmain hi => exact he.main _ _ _

theorem ends_run (hsize : c.numFds * c.loops < 2 ^ 32) (run : (machine c).Run h s) : Ends s :=
  run.invariant (I := fun _ s => Ends s)
    ⟨fun _ hw => by simp [machine, Phase.gone] at hw, fun _ => by simp [machine]⟩
    fun _ _ _ _ run he hs => ends_step he (ledger_run run) hsize (.of_step hs)

/-- In every run, what a group has written to a channel is what its receiver has read and
what is still in the channel, no more than the receiver waits for, and the next step is
neither a `read` at the end of file nor a `write` without a reader. -/
theorem channels_deliver (hsize : c.numFds * c.loops < 2 ^ 32) (run : (machine c).Run h s)
    (g : Fin c.numGroups) (j : Fin c.numFds) :
    total (fun p => p.written j) (s.pump g) = s.channel g j + (s.receipt g j).received ∧
    s.channel g j + (s.receipt g j).received ≤ dataSize * c.numPackets ∧
    step c s (.readEof g j) = none ∧ step c s (.sigpipe g j) = none := by
  have hl := ledger_run run
  have he := ends_run hsize run
  have hle : total (fun p => Pump.written p j) (s.pump g) ≤ _ :=
    total_le_card_mul fun i => (hl.pump g i).written_le j
  rw [hl.balance g j, Fintype.card_fin, Nat.mul_left_comm, ← Config.numPackets_eq hsize] at hle
  refine ⟨hl.balance g j, hle, ?_, ?_⟩
  · have hnot : ¬ (s.reads g j ∧ s.channel g j = 0 ∧ s.writeEndsClosed g j) :=
      fun hguard => he.not_eof hl hguard.1 hguard.2.1 hguard.2.2
    simp only [step, hnot, if_false]
  · have hnot : ¬ (s.writes g j ∧ s.readEndClosed g (s.pump g j).j) :=
      fun hguard => he.not_readEndClosed hl hsize hguard.1 hguard.2
    simp only [step, hnot, if_false]

/-- The sender is done, and 70 bytes are on their way. -/
theorem channels_deliver_transfer :
    ∃ h s, (machine ⟨1, 1, 1, true, 100⟩).Run h s ∧ s.channel 0 0 = 70 ∧
      total (fun p => p.written 0) (s.pump 0) = 70 + (s.receipt 0 0).received ∧
      step ⟨1, 1, 1, true, 100⟩ s (.readEof 0 0) = none := by
  have run := (machine ⟨1, 1, 1, true, 100⟩).run_of_replay (startup ++ transfer) rfl
  have hall := channels_deliver (by decide) run 0 0
  exact ⟨_, _, run, rfl, hall.1, hall.2.2.1⟩

end AutotestClient.Hackbench
