import AutotestClient.Verification.CheckTsc.Semantics

/-! # The handshake between master and slave

`READY` and `DONE` are reused in every round. What excludes stale flags is the joint
position of the two processes: each phase of the master allows only a few phases of the
slave, with known flags. -/

namespace AutotestClient.CheckTsc

open Shared

variable {c : Config} {s s' : State}

/-! ## Joint phases -/

/-- The slave waits for the next round and cannot see one yet. -/
structure Idle (s : State) : Prop where
  slavePc : s.slavePc = .waitReady
  masterFlag : s.masterFlag ≠ .ready
  slaveFlag : s.slaveFlag ≠ .ready

/-- The master is in `tsc_delta(a, b)`: bound to `a`, with `slave_cpu = b`. -/
structure Measuring (s : State) (a b : ℕ) : Prop where
  todo : ∃ rest, s.todo = (a, b) :: rest
  masterBound : s.masterBound = some (a : ℤ)
  slaveCpu : s.slaveCpu = b

/-- The slave is bound to the CPU the master asked for. -/
structure Bound (s : State) : Prop where
  currentCpu : s.currentCpu = s.slaveCpu
  slaveBound : s.slaveBound = some s.slaveCpu

/-- The slave on its way from `master.state == READY` to its own `READY`, or in its
error exit. -/
def Answering (s : State) : Prop :=
  match s.slavePc with
  | .waitReady | .testStop | .testCpu | .affinity | .error | .exited => True
  | .setCurrent => s.slaveBound = some s.slaveCpu
  | .ready => Bound s
  | _ => False

/-- Which slave phases and flags each master phase allows. -/
def Coupled (s : State) : Prop :=
  match s.masterPc with
  | .create => s.slavePc = .unborn ∧ s.masterFlag = .unset ∧ s.slaveFlag = .unset
  | .pair => Idle s
  | .storeCpu => Idle s ∧ ∃ a b rest, s.todo = (a, b) :: rest ∧ s.masterBound = some (a : ℤ)
  | .ready => Idle s ∧ ∃ a b, Measuring s a b
  | .waitReady =>
      (∃ a b, Measuring s a b) ∧ s.masterFlag = .ready ∧
        (Answering s ∧ s.slaveFlag ≠ .ready ∨
          s.slavePc = .waitDone ∧ s.slaveFlag = .ready ∧ Bound s)
  | .readT0 | .done =>
      (∃ a b, Measuring s a b) ∧ s.masterFlag = .ready ∧ s.slavePc = .waitDone ∧
        s.slaveFlag = .ready ∧ Bound s
  | .waitDone =>
      (∃ a b, Measuring s a b) ∧ s.masterFlag = .done ∧ Bound s ∧
        ((s.slavePc = .waitDone ∨ s.slavePc = .write ∨ s.slavePc = .done) ∧ s.slaveFlag = .ready ∨
          s.slavePc = .waitReady ∧ s.slaveFlag = .done)
  | .readT1 | .compare => (∃ a b, Measuring s a b) ∧ Idle s ∧ Bound s
  -- without a single exchange the slave is still bound as in the previous pair
  | .delta => (∃ a b, Measuring s a b) ∧ Idle s
  | .stopReady => Idle s ∧ s.slaveCpu = -1 ∧ s.todo = []
  | .join =>
      s.masterFlag = .ready ∧ s.slaveCpu = -1 ∧ s.todo = [] ∧
        (s.slavePc = .waitReady ∨ s.slavePc = .testStop ∨ s.slavePc = .exited)
  | .returned err =>
      err = -1 ∧ s.slavePc = .unborn ∨
        err = s.err ∧ s.slavePc = .exited ∧ s.slaveCpu = -1 ∧ s.todo = []

/-- Outside the two statements that change it, `current_cpu` is the CPU the slave is
bound to. -/
def Current (s : State) : Prop :=
  s.slavePc ≠ .setCurrent → s.currentCpu ≠ -1 → s.slaveBound = some s.currentCpu

theorem coupled_init (c : Config) : Coupled (machine c).init := by
  simp [Coupled, machine]

theorem Measuring.congr {a b : ℕ} (hm : Measuring s a b) (htodo : s'.todo = s.todo)
    (hbound : s'.masterBound = s.masterBound) (hcpu : s'.slaveCpu = s.slaveCpu) :
    Measuring s' a b := by
  obtain ⟨rest, hrest⟩ := hm.todo
  exact ⟨⟨rest, htodo.trans hrest⟩, hbound.trans hm.masterBound, hcpu.trans hm.slaveCpu⟩

/-- A step of the master leads from each phase to one that allows the slave where it is. -/
theorem coupled_master {l : MasterLabel} (hc : Coupled s) (hr : MasterRule c s l s') :
    Coupled s' := by
  cases hr with
  | create hpc =>
      simp only [Coupled, hpc] at hc
      exact ⟨rfl, by simp [hc.2.1], by simp [hc.2.2]⟩
  | createFailed hpc =>
      simp only [Coupled, hpc] at hc
      exact .inl ⟨rfl, hc.1⟩
  | @affinity a b rest hpc htodo =>
      simp only [Coupled, hpc] at hc
      exact ⟨⟨hc.1, hc.2, hc.3⟩, a, b, rest, htodo, rfl⟩
  | affinityFailed hpc htodo =>
      simp only [Coupled, hpc] at hc
      exact ⟨hc.1, hc.2, hc.3⟩
  | @storeCpu a b rest hpc htodo =>
      simp only [Coupled, hpc] at hc
      obtain ⟨hidle, a', b', rest', htodo', hbound⟩ := hc
      obtain ⟨⟨rfl, rfl⟩, rfl⟩ : (a' = a ∧ b' = b) ∧ rest' = rest := by
        simpa [htodo'] using htodo
      unfold Config.loopPc
      split
      · exact ⟨⟨hidle.1, hidle.2, hidle.3⟩, a', b', ⟨rest', htodo'⟩, hbound, rfl⟩
      · exact ⟨⟨a', b', ⟨rest', htodo'⟩, hbound, rfl⟩, hidle.1, hidle.2, hidle.3⟩
  | ready hpc =>
      simp only [Coupled, hpc] at hc
      obtain ⟨hidle, a, b, hm⟩ := hc
      refine ⟨⟨a, b, hm.congr rfl rfl rfl⟩, rfl, .inl ⟨?_, hidle.3⟩⟩
      simp [Answering, hidle.1]
  | sawReady hpc hflag =>
      simp only [Coupled, hpc] at hc
      obtain ⟨⟨a, b, hm⟩, hmaster, ⟨-, hslave⟩ | ⟨hslave, -, hb⟩⟩ := hc
      · exact absurd hflag hslave
      · exact ⟨⟨a, b, hm.congr rfl rfl rfl⟩, hmaster, hslave, hflag, hb.1, hb.2⟩
  | readT0 t hpc =>
      simp only [Coupled, hpc] at hc
      obtain ⟨⟨a, b, hm⟩, hmaster, hslave, hflag, hb⟩ := hc
      exact ⟨⟨a, b, hm.congr rfl rfl rfl⟩, hmaster, hslave, hflag, hb.1, hb.2⟩
  | done hpc =>
      simp only [Coupled, hpc] at hc
      obtain ⟨⟨a, b, hm⟩, -, hslave, hflag, hb⟩ := hc
      exact ⟨⟨a, b, hm.congr rfl rfl rfl⟩, rfl, ⟨hb.1, hb.2⟩, .inl ⟨.inl hslave, hflag⟩⟩
  | sawDone hpc hflag =>
      simp only [Coupled, hpc] at hc
      obtain ⟨⟨a, b, hm⟩, hmaster, hb, ⟨-, hready⟩ | ⟨hslave, -⟩⟩ := hc
      · rw [hflag] at hready
        cases hready
      · exact ⟨⟨a, b, hm.congr rfl rfl rfl⟩, ⟨hslave, by simp [hmaster], by simp [hflag]⟩,
          hb.1, hb.2⟩
  | readT1 t hpc =>
      simp only [Coupled, hpc] at hc
      obtain ⟨⟨a, b, hm⟩, hidle, hb⟩ := hc
      exact ⟨⟨a, b, hm.congr rfl rfl rfl⟩, ⟨hidle.1, hidle.2, hidle.3⟩, hb.1, hb.2⟩
  | compare hpc =>
      simp only [Coupled, hpc] at hc
      obtain ⟨⟨a, b, hm⟩, hidle, hb⟩ := hc
      unfold Config.loopPc
      split
      · exact ⟨⟨hidle.1, hidle.2, hidle.3⟩, a, b, hm.congr rfl rfl rfl⟩
      · exact ⟨⟨a, b, hm.congr rfl rfl rfl⟩, hidle.1, hidle.2, hidle.3⟩
  | delta hpc =>
      simp only [Coupled, hpc] at hc
      obtain ⟨-, hidle⟩ := hc
      exact ⟨hidle.1, hidle.2, hidle.3⟩
  | storeStop hpc htodo =>
      simp only [Coupled, hpc] at hc
      exact ⟨⟨hc.1, hc.2, hc.3⟩, rfl, htodo⟩
  | stopReady hpc =>
      simp only [Coupled, hpc] at hc
      obtain ⟨hidle, hcpu, htodo⟩ := hc
      exact ⟨rfl, hcpu, htodo, .inl hidle.1⟩
  | join hpc hexit =>
      simp only [Coupled, hpc] at hc
      exact .inr ⟨rfl, hexit, hc.2.1, hc.2.2.1⟩
  | retest hwait => exact hc

/-! ## Where the master is when the slave moves -/

/-- The master has announced a pair and the slave has not answered yet. -/
structure Inviting (s : State) : Prop where
  masterPc : s.masterPc = .waitReady
  measuring : ∃ a b, Measuring s a b
  masterFlag : s.masterFlag = .ready
  answering : Answering s
  slaveFlag : s.slaveFlag ≠ .ready

/-- The slave has answered and the master has not written `DONE` yet. -/
structure Answered (s : State) : Prop where
  slavePc : s.slavePc = .waitDone
  masterFlag : s.masterFlag = .ready

/-- The master has written `DONE` and waits for the slave's. -/
structure Timing (s : State) : Prop where
  masterPc : s.masterPc = .waitDone
  measuring : ∃ a b, Measuring s a b
  masterFlag : s.masterFlag = .done
  bound : Bound s
  slave : (s.slavePc = .waitDone ∨ s.slavePc = .write ∨ s.slavePc = .done) ∧ s.slaveFlag = .ready ∨
    s.slavePc = .waitReady ∧ s.slaveFlag = .done

/-- The shutdown round. -/
structure Stopping (s : State) : Prop where
  masterPc : s.masterPc = .join
  masterFlag : s.masterFlag = .ready
  slaveCpu : s.slaveCpu = -1
  todo : s.todo = []
  slave : s.slavePc = .waitReady ∨ s.slavePc = .testStop ∨ s.slavePc = .exited

/-- The joint phases, from the slave's point of view. -/
inductive Phase (s : State) : Prop where
  | apart (h : s.slavePc = .unborn ∨ s.slavePc = .exited)
  | idle (h : Idle s)
  | inviting (h : Inviting s)
  | answered (h : Answered s)
  | timing (h : Timing s)
  | stopping (h : Stopping s)

theorem Coupled.phase (hc : Coupled s) : Phase s := by
  unfold Coupled at hc
  split at hc
  · exact .apart (.inl hc.1)
  · exact .idle hc
  · exact .idle hc.1
  · exact .idle hc.1
  · obtain ⟨hm, hflag, ⟨ha, hs⟩ | ⟨hs, -, -⟩⟩ := hc
    · exact .inviting ⟨‹_›, hm, hflag, ha, hs⟩
    · exact .answered ⟨hs, hflag⟩
  · exact .answered ⟨hc.2.2.1, hc.2.1⟩
  · exact .answered ⟨hc.2.2.1, hc.2.1⟩
  · exact .timing ⟨‹_›, hc.1, hc.2.1, hc.2.2.1, hc.2.2.2⟩
  · exact .idle hc.2.1
  · exact .idle hc.2.1
  · exact .idle hc.2
  · exact .idle hc.1
  · exact .stopping ⟨‹_›, hc.1, hc.2.1, hc.2.2.1, hc.2.2.2⟩
  · rcases hc with ⟨-, hs⟩ | ⟨-, hs, -⟩
    · exact .apart (.inl hs)
    · exact .apart (.inr hs)

/-- A slave that has seen `READY` is in a round the master announced. -/
theorem Coupled.round (hc : Coupled s)
    (hpc : s.slavePc = .waitReady ∧ s.masterFlag = .ready ∨ s.slavePc = .testStop) :
    Inviting s ∨ Stopping s := by
  cases hc.phase with
  | inviting h => exact .inl h
  | stopping h => exact .inr h
  | apart h => rcases hpc with ⟨hpc, -⟩ | hpc <;> simp [hpc] at h
  | idle h =>
      rcases hpc with ⟨-, hflag⟩ | hpc
      · exact absurd hflag h.masterFlag
      · cases h.slavePc.symm.trans hpc
  | answered h => rcases hpc with ⟨hpc, -⟩ | hpc <;> cases h.slavePc.symm.trans hpc
  | timing h =>
      rcases hpc with ⟨-, hflag⟩ | hpc
      · cases h.masterFlag.symm.trans hflag
      · simpa [hpc] using h.slave

/-- A slave past the shutdown test and before its `READY` was invited. -/
theorem Coupled.inviting (hc : Coupled s)
    (hpc : s.slavePc = .testCpu ∨ s.slavePc = .affinity ∨ s.slavePc = .setCurrent ∨
      s.slavePc = .ready ∨ s.slavePc = .error) : Inviting s := by
  cases hc.phase with
  | inviting h => exact h
  | apart h => rcases h with h | h <;> simp [h] at hpc
  | idle h => simp [h.slavePc] at hpc
  | answered h => simp [h.slavePc] at hpc
  | timing h => rcases h.slave with ⟨h | h | h, -⟩ | ⟨h, -⟩ <;> simp [h] at hpc
  | stopping h => rcases h.slave with h | h | h <;> simp [h] at hpc

/-- A slave that has seen `DONE` is timed. -/
theorem Coupled.timing (hc : Coupled s)
    (hpc : s.slavePc = .waitDone ∧ s.masterFlag = .done ∨ s.slavePc = .write ∨
      s.slavePc = .done) : Timing s := by
  cases hc.phase with
  | timing h => exact h
  | apart h => rcases h with h | h <;> simp [h] at hpc
  | idle h => simp [h.slavePc] at hpc
  | inviting h =>
      have ha := h.answering
      rcases hpc with ⟨hpc, -⟩ | hpc | hpc <;> simp [Answering, hpc] at ha
  | answered h => simp [h.slavePc, h.masterFlag] at hpc
  | stopping h => rcases h.slave with h | h | h <;> simp [h] at hpc

theorem Inviting.coupled (h : Inviting s) : Coupled s := by
  simp only [Coupled, h.masterPc]
  exact ⟨h.measuring, h.masterFlag, .inl ⟨h.answering, h.slaveFlag⟩⟩

theorem Timing.coupled (h : Timing s) : Coupled s := by
  simp only [Coupled, h.masterPc]
  exact ⟨h.measuring, h.masterFlag, h.bound, h.slave⟩

theorem Stopping.coupled (h : Stopping s) : Coupled s := by
  simp only [Coupled, h.masterPc]
  exact ⟨h.masterFlag, h.slaveCpu, h.todo, h.slave⟩

/-- A move of an invited slave that touches nothing but its own variables. -/
theorem Inviting.move (h : Inviting s) {pc : SlavePc} {bound : Option ℤ} {current : ℤ}
    (ha : Answering { s with slavePc := pc, slaveBound := bound, currentCpu := current }) :
    Coupled { s with slavePc := pc, slaveBound := bound, currentCpu := current } := by
  obtain ⟨a, b, hm⟩ := h.measuring
  exact Inviting.coupled ⟨h.masterPc, ⟨a, b, hm.congr rfl rfl rfl⟩, h.masterFlag, ha, h.slaveFlag⟩

theorem Measuring.nonneg {a b : ℕ} (hm : Measuring s a b) : 0 ≤ s.slaveCpu := by
  rw [hm.slaveCpu]
  exact Int.natCast_nonneg b

/-- A step of the slave stays within what the master's phase allows. -/
theorem coupled_slave {l : SlaveLabel} (hc : Coupled s) (hcur : Current s)
    (hr : SlaveRule s l s') : Coupled s' := by
  cases hr with
  | sawReady hpc hflag =>
      rcases hc.round (.inl ⟨hpc, hflag⟩) with h | h
      · exact h.move trivial
      · exact Stopping.coupled ⟨h.masterPc, h.masterFlag, h.slaveCpu, h.todo, .inr (.inl rfl)⟩
  | stop hpc hcpu =>
      rcases hc.round (.inr hpc) with h | h
      · obtain ⟨a, b, hm⟩ := h.measuring
        exact absurd hm.nonneg (by omega)
      · exact Stopping.coupled ⟨h.masterPc, h.masterFlag, h.slaveCpu, h.todo, .inr (.inr rfl)⟩
  | go hpc hcpu =>
      rcases hc.round (.inr hpc) with h | h
      · exact h.move trivial
      · rw [h.slaveCpu] at hcpu
        exact absurd hcpu (by decide)
  | move hpc hcpu => exact (hc.inviting (.inl hpc)).move trivial
  | stay hpc hcpu =>
      have h := hc.inviting (.inl hpc)
      obtain ⟨a, b, hm⟩ := h.measuring
      have hbound : s.slaveBound = some s.slaveCpu := by
        rw [hcpu]
        exact hcur (by simp [hpc]) (by have := hm.nonneg; omega)
      exact h.move ⟨hcpu.symm, hbound⟩
  | affinity hpc => exact (hc.inviting (.inr (.inl hpc))).move rfl
  | affinityFailed hpc => exact (hc.inviting (.inr (.inl hpc))).move trivial
  | setCurrent hpc =>
      have h := hc.inviting (.inr (.inr (.inl hpc)))
      have hbound : s.slaveBound = some s.slaveCpu := by simpa [Answering, hpc] using h.answering
      exact h.move ⟨rfl, hbound⟩
  | ready hpc =>
      have h := hc.inviting (.inr (.inr (.inr (.inl hpc))))
      obtain ⟨a, b, hm⟩ := h.measuring
      have hb : Bound s := by simpa [Answering, hpc] using h.answering
      simp only [Coupled, h.masterPc]
      exact ⟨⟨a, b, hm.congr rfl rfl rfl⟩, h.masterFlag, .inr ⟨trivial, trivial, hb.1, hb.2⟩⟩
  | sawDone hpc hflag =>
      have h := hc.timing (.inl ⟨hpc, hflag⟩)
      obtain ⟨a, b, hm⟩ := h.measuring
      have hready : s.slaveFlag = .ready := by simpa [hpc] using h.slave
      exact Timing.coupled ⟨h.masterPc, ⟨a, b, hm.congr rfl rfl rfl⟩, h.masterFlag,
        ⟨h.bound.1, h.bound.2⟩, .inl ⟨.inr (.inl rfl), hready⟩⟩
  | write t hpc =>
      have h := hc.timing (.inr (.inl hpc))
      obtain ⟨a, b, hm⟩ := h.measuring
      have hready : s.slaveFlag = .ready := by simpa [hpc] using h.slave
      exact Timing.coupled ⟨h.masterPc, ⟨a, b, hm.congr rfl rfl rfl⟩, h.masterFlag,
        ⟨h.bound.1, h.bound.2⟩, .inl ⟨.inr (.inr rfl), hready⟩⟩
  | done hpc =>
      have h := hc.timing (.inr (.inr hpc))
      obtain ⟨a, b, hm⟩ := h.measuring
      exact Timing.coupled ⟨h.masterPc, ⟨a, b, hm.congr rfl rfl rfl⟩, h.masterFlag,
        ⟨h.bound.1, h.bound.2⟩, .inr ⟨rfl, rfl⟩⟩
  | error hpc =>
      have h := hc.inviting (.inr (.inr (.inr (.inr hpc))))
      obtain ⟨a, b, hm⟩ := h.measuring
      exact Inviting.coupled ⟨h.masterPc, ⟨a, b, hm.congr rfl rfl rfl⟩, h.masterFlag, trivial,
        by simp⟩
  | retest hwait => exact hc

/-! ## All interleavings -/

theorem current_step {l : Label} (hcur : Current s) (hc : Coupled s) (hr : Rule c s l s') :
    Current s' := by
  cases hr with
  | master hr =>
      cases hr with
      | create hpc =>
          simp only [Coupled, hpc] at hc
          exact fun _ => hcur (by simp [hc.1])
      | _ => exact hcur
  | slave hr =>
      cases hr with
      | affinity hpc => exact fun h => absurd rfl h
      | setCurrent hpc =>
          intro _ _
          have h := hc.inviting (.inr (.inr (.inl hpc)))
          simpa [Answering, hpc] using h.answering
      | retest hwait => exact hcur
      | write t hpc => exact fun _ => hcur (by simp [hpc])
      | _ hpc => exact fun _ => hcur (by simp [hpc])

/-- The coupling of the two processes holds in every reachable state, whatever the
affinity calls and clocks return. -/
theorem coupled_run {h : History} (run : (machine c).Run h s) : Coupled s ∧ Current s := by
  refine run.invariant (I := fun _ s => Coupled s ∧ Current s)
    ⟨coupled_init c, by simp [Current, machine]⟩ ?_
  intro h s l s' _ ⟨hc, hcur⟩ hs
  have hr := step_iff_rule.mp hs
  refine ⟨?_, current_step hcur hc hr⟩
  cases hr with
  | master hr => exact coupled_master hc hr
  | slave hr => exact coupled_slave hc hcur hr

/-- The slave is about to take its error exit only after an affinity call of its own has
failed. -/
theorem affinityFailed_of_error {h : History} (run : (machine c).Run h s) (hpc : s.slavePc = .error) :
    ∃ e ∈ h, e.2 = .slave (.affinity false) := by
  revert hpc
  refine run.invariant
    (I := fun h s => s.slavePc = .error → ∃ e ∈ h, e.2 = .slave (.affinity false))
    (by simp [machine]) ?_
  intro h s l s' _ ih hs hpc
  by_cases hl : l = .slave (.affinity false)
  · exact ⟨_, List.mem_cons_self, hl⟩
  · have hbefore : s.slavePc = .error := by
      cases step_iff_rule.mp hs with
      | master hr => cases hr <;> first | exact hpc | cases hpc
      | slave hr =>
          cases hr with
          | affinityFailed => exact absurd rfl hl
          | retest => exact hpc
          | _ => cases hpc
    obtain ⟨e, he, hfail⟩ := ih hbefore
    exact ⟨e, List.mem_cons_of_mem _ he, hfail⟩

/-- Hence a history with the error exit in it has a failed affinity call of the slave. -/
theorem affinityFailed_of_error_mem {h : History} (run : (machine c).Run h s)
    (hmem : ∃ e ∈ h, e.2 = .slave .error) : ∃ e ∈ h, e.2 = .slave (.affinity false) := by
  obtain ⟨⟨t, l⟩, hmem, rfl⟩ := hmem
  obtain ⟨newer, older, t', rfl, hrun, hs⟩ := run.of_mem hmem
  obtain ⟨hpc, -⟩ := ifSlave_eq_some.mp hs
  obtain ⟨e, he, hfail⟩ := affinityFailed_of_error hrun hpc
  exact ⟨e, List.mem_append_right _ (List.mem_cons_of_mem _ he), hfail⟩

end AutotestClient.CheckTsc
