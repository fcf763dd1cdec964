import AutotestClient.Verification.CheckTsc.Handshake

/-! # Freshness of the exchanged time stamps

What the master compares in one iteration was written by the slave in that iteration,
once, between the two readings of the master's clock. The statements are about the
history of a run, so that a stale value could not hide behind an equal fresh one. -/

namespace AutotestClient.CheckTsc

open Shared

variable {c : Config} {h older : History} {s s' t : State} {l l' : Label}

/-! ## Exchanges in a history -/

/-- The steps that produce the three time stamps of an exchange. -/
def Label.readsClock : Label → Bool
  | .master (.readT0 _) | .master (.readT1 _) | .slave (.write _) => true
  | _ => false

def Quiet (h : History) : Prop := ∀ e ∈ h, e.2.readsClock = false

/-- The pair under measurement and the iteration, which determine the round. -/
def SameRound (t s : State) : Prop := t.todo = s.todo ∧ t.iter = s.iter

/-- The last clock reading in the history is `l`. It was made in this round, in a state
that with the history before it has the property `P`. -/
def Since (l : Label) (P : History → State → Prop) (h : History) (s : State) : Prop :=
  ∃ newer t older, h = newer ++ (t, l) :: older ∧ Quiet newer ∧ SameRound t s ∧ P older t

/-- The slave runs on the second CPU of the pair under measurement. -/
def OnCpu (s : State) : Prop :=
  ∃ a b rest, s.todo = (a, b) :: rest ∧ s.slaveCpu = (b : ℤ) ∧ s.currentCpu = (b : ℤ) ∧
    s.slaveBound = some (b : ℤ)

/-- `t0` was read in this round and no clock since. -/
def Opened (h : History) (s : State) : Prop :=
  Since (.master (.readT0 s.t0)) (fun _ _ => True) h s

/-- `slave_tsc` was written in this round, on the CPU of the pair, and the last reading
before it is that of `t0`. -/
def Written (h : History) (s : State) : Prop :=
  Since (.slave (.write s.slaveTsc)) (fun h t => t.t0 = s.t0 ∧ OnCpu t ∧ Opened h t) h s

/-- `t1` was read in this round, and the last reading before it is the slave's. -/
def Timed (h : History) (s : State) : Prop :=
  Since (.master (.readT1 s.t1))
    (fun h t => t.t0 = s.t0 ∧ t.slaveTsc = s.slaveTsc ∧ Written h t) h s

/-- How far the exchange of the current iteration has come. -/
def Fresh (h : History) (s : State) : Prop :=
  match s.masterPc with
  | .done => Opened h s
  | .waitDone => if s.slavePc = .waitDone ∨ s.slavePc = .write then Opened h s else Written h s
  | .readT1 => Written h s
  | .compare => Timed h s
  | _ => True

/-! ## One step -/

theorem Since.quiet {P : History → State → Prop} (hs : Since l P h s) (hq : l'.readsClock = false)
    (htodo : s'.todo = s.todo) (hiter : s'.iter = s.iter) : Since l P ((s, l') :: h) s' := by
  obtain ⟨newer, t, older, rfl, hquiet, ⟨h1, h2⟩, hp⟩ := hs
  refine ⟨(s, l') :: newer, t, older, rfl, ?_, ⟨h1.trans htodo.symm, h2.trans hiter.symm⟩, hp⟩
  exact List.forall_mem_cons.mpr ⟨hq, hquiet⟩

theorem Since.now {P : History → State → Prop} (hp : P h s) (htodo : s'.todo = s.todo)
    (hiter : s'.iter = s.iter) : Since l P ((s, l) :: h) s' :=
  ⟨[], s, h, rfl, by simp [Quiet], ⟨htodo.symm, hiter.symm⟩, hp⟩

theorem Bound.onCpu {a b : ℕ} (hb : Bound s) (hm : Measuring s a b) : OnCpu s := by
  obtain ⟨rest, htodo⟩ := hm.todo
  exact ⟨a, b, rest, htodo, hm.slaveCpu, hb.currentCpu.trans hm.slaveCpu,
    hb.slaveBound.trans (by rw [hm.slaveCpu])⟩

theorem fresh_of_not_exchanging (hd : s.masterPc ≠ .done) (hw : s.masterPc ≠ .waitDone)
    (hr : s.masterPc ≠ .readT1) (hc : s.masterPc ≠ .compare) : Fresh h s := by
  unfold Fresh
  split <;> trivial

/-- A failed test of a waiting process changes neither the state nor the exchange. -/
theorem Fresh.retest (hf : Fresh h s) (hq : l.readsClock = false) : Fresh ((s, l) :: h) s := by
  unfold Fresh at hf ⊢
  split at hf
  · exact Since.quiet hf hq rfl rfl
  · split_ifs at hf ⊢ <;> exact Since.quiet hf hq rfl rfl
  · exact Since.quiet hf hq rfl rfl
  · exact Since.quiet hf hq rfl rfl
  · trivial

theorem fresh_master {l : MasterLabel} (hc : Coupled s) (hf : Fresh h s)
    (hr : MasterRule c s l s') : Fresh ((s, .master l) :: h) s' := by
  cases hr with
  | readT0 t hpc => exact Since.now trivial rfl rfl
  | done hpc =>
      simp only [Coupled, hpc] at hc
      simp only [Fresh, hpc] at hf
      simp only [Fresh, hc.2.2.1, true_or, if_true]
      exact Since.quiet hf rfl rfl rfl
  | sawDone hpc hflag =>
      simp only [Coupled, hpc] at hc
      obtain ⟨-, -, -, ⟨-, hready⟩ | ⟨hslave, -⟩⟩ := hc
      · cases hflag.symm.trans hready
      · simp only [Fresh, hpc, hslave] at hf
        exact Since.quiet hf rfl rfl rfl
  | readT1 t hpc =>
      simp only [Fresh, hpc] at hf
      exact Since.now ⟨rfl, rfl, hf⟩ rfl rfl
  | storeCpu | compare =>
      unfold Config.loopPc
      split <;> trivial
  | retest hwait => exact hf.retest rfl
  | _ => trivial

/-- A slave that was invited or told to stop moves outside of any exchange. -/
theorem fresh_of_round (hround : Inviting s ∨ Stopping s) (hpc : s'.masterPc = s.masterPc) :
    Fresh h s' := by
  rcases hround with hi | hs
  · apply fresh_of_not_exchanging <;> simp [hpc, hi.masterPc]
  · apply fresh_of_not_exchanging <;> simp [hpc, hs.masterPc]

theorem fresh_slave {l : SlaveLabel} (hc : Coupled s) (hf : Fresh h s)
    (hr : SlaveRule s l s') : Fresh ((s, .slave l) :: h) s' := by
  cases hr with
  | sawReady hpc hflag => exact fresh_of_round (hc.round (.inl ⟨hpc, hflag⟩)) rfl
  | stop hpc | go hpc => exact fresh_of_round (hc.round (.inr hpc)) rfl
  | move hpc | stay hpc => exact fresh_of_round (.inl (hc.inviting (.inl hpc))) rfl
  | affinity hpc | affinityFailed hpc =>
      exact fresh_of_round (.inl (hc.inviting (.inr (.inl hpc)))) rfl
  | setCurrent hpc => exact fresh_of_round (.inl (hc.inviting (.inr (.inr (.inl hpc))))) rfl
  | ready hpc => exact fresh_of_round (.inl (hc.inviting (.inr (.inr (.inr (.inl hpc)))))) rfl
  | error hpc => exact fresh_of_round (.inl (hc.inviting (.inr (.inr (.inr (.inr hpc)))))) rfl
  | sawDone hpc hflag =>
      have ht := hc.timing (.inl ⟨hpc, hflag⟩)
      simp only [Fresh, ht.masterPc, hpc, true_or, if_true] at hf
      simp only [Fresh, ht.masterPc, or_true, if_true]
      exact Since.quiet hf rfl rfl rfl
  | write t hpc =>
      have ht := hc.timing (.inr (.inl hpc))
      obtain ⟨a, b, hm⟩ := ht.measuring
      simp only [Fresh, ht.masterPc, hpc, or_true, if_true] at hf
      simp only [Fresh, ht.masterPc, reduceCtorEq, or_self, if_false]
      exact Since.now ⟨rfl, ht.bound.onCpu hm, hf⟩ rfl rfl
  | done hpc =>
      have ht := hc.timing (.inr (.inr hpc))
      simp only [Fresh, ht.masterPc, hpc, reduceCtorEq, or_self, if_false] at hf
      simp only [Fresh, ht.masterPc, reduceCtorEq, or_self, if_false]
      exact Since.quiet hf rfl rfl rfl
  | retest hwait => exact hf.retest rfl

/-! ## All interleavings -/

theorem fresh_run (run : (machine c).Run h s) : Fresh h s := by
  refine run.invariant (I := Fresh) trivial ?_
  intro h s l s' run hf hs
  have hc := (coupled_run run).1
  cases step_iff_rule.mp hs with
  | master hr => exact fresh_master hc hf hr
  | slave hr => exact fresh_slave hc hf hr

/-- The statements of `slave_thread` that read `slave_cpu`. -/
def SlaveLabel.readsCpu : SlaveLabel → Bool
  | .testStop | .testCpu | .affinity _ | .setCurrent => true
  | _ => false

/-- `slave_cpu` names the second CPU of the pair the master has announced and waits for,
or it is the stop value of the shutdown round. -/
def CurrentOrder (s : State) : Prop :=
  (s.masterPc = .waitReady ∧ ∃ a b rest, s.todo = (a, b) :: rest ∧ s.slaveCpu = (b : ℤ)) ∨
    s.masterPc = .join ∧ s.slaveCpu = -1

theorem Inviting.currentOrder (hi : Inviting s) : CurrentOrder s := by
  obtain ⟨a, b, hm⟩ := hi.measuring
  obtain ⟨rest, htodo⟩ := hm.todo
  exact .inl ⟨hi.masterPc, a, b, rest, htodo, hm.slaveCpu⟩

theorem currentOrder_of_readsCpu {l : SlaveLabel} (hc : Coupled s) (hr : SlaveRule s l s')
    (hl : l.readsCpu = true) : CurrentOrder s := by
  cases hr with
  | stop hpc | go hpc =>
      rcases hc.round (.inr hpc) with hi | hs
      · exact hi.currentOrder
      · exact .inr ⟨hs.masterPc, hs.slaveCpu⟩
  | move hpc | stay hpc => exact (hc.inviting (.inl hpc)).currentOrder
  | affinity hpc | affinityFailed hpc => exact (hc.inviting (.inr (.inl hpc))).currentOrder
  | setCurrent hpc => exact (hc.inviting (.inr (.inr (.inl hpc)))).currentOrder
  | _ => cases hl

/-- The master stored the stop value. -/
def StopStored (h : History) : Prop := ∃ t, (t, .master .storeStop) ∈ h

theorem StopStored.cons {e : State × Label} (hs : StopStored h) : StopStored (e :: h) :=
  hs.imp fun _ ht => List.mem_cons_of_mem _ ht

/-- A negative `slave_cpu` was stored by the master. -/
theorem stopStored_of_neg (run : (machine c).Run h s) (hneg : s.slaveCpu < 0) : StopStored h := by
  revert hneg
  refine run.invariant (I := fun h s => s.slaveCpu < 0 → StopStored h) (by simp [machine]) ?_
  intro h s l s' _ ih hs hneg
  cases step_iff_rule.mp hs with
  | master hr =>
      cases hr with
      | storeCpu => exact absurd hneg (by simp)
      | storeStop => exact ⟨s, List.mem_cons_self⟩
      | _ => exact (ih hneg).cons
  | slave hr => cases hr <;> exact (ih hneg).cons

/-- The slave exits on reading a negative `slave_cpu` or after an error. -/
theorem exit_cause (run : (machine c).Run h s) (hexit : s.slavePc = .exited) :
    StopStored h ∨ ∃ e ∈ h, e.2 = .slave .error := by
  revert hexit
  refine run.invariant
    (I := fun h s => s.slavePc = .exited → StopStored h ∨ ∃ e ∈ h, e.2 = .slave .error)
    (by simp [machine]) ?_
  intro h s l s' run ih hs hexit
  have hkeep : s.slavePc = .exited →
      StopStored ((s, l) :: h) ∨ ∃ e ∈ (s, l) :: h, e.2 = .slave .error := by
    intro hpc
    rcases ih hpc with hstop | ⟨e, he, herr⟩
    · exact .inl hstop.cons
    · exact .inr ⟨e, List.mem_cons_of_mem _ he, herr⟩
  cases step_iff_rule.mp hs with
  | master hr => cases hr <;> first | exact hkeep hexit | cases hexit
  | slave hr =>
      cases hr with
      | stop hpc hcpu => exact .inl (stopStored_of_neg run hcpu).cons
      | error hpc => exact .inr ⟨_, List.mem_cons_self, rfl⟩
      | retest => exact hkeep hexit
      | _ => cases hexit

/-- For any pairs, any number of iterations and any interleaving in which the slave's
affinity calls succeed: every comparison is of a fresh exchange, the slave reads
`slave_cpu` only for the pair being measured or in the shutdown round, and it exits only
after the master stored -1. -/
theorem checkTsc_freshness (run : (machine c).Run h s)
    (hok : ∀ e ∈ h, e.2 ≠ .slave (.affinity false)) :
    (∀ newer t older, h = newer ++ (t, .master .compare) :: older → Timed older t) ∧
      (∀ t l, (t, .slave l) ∈ h → l.readsCpu = true → CurrentOrder t) ∧
      (s.slavePc = .exited → StopStored h) := by
  refine ⟨?_, ?_, ?_⟩
  · rintro newer t older rfl
    obtain ⟨hrun, t', ht⟩ := run.of_append
    have hf := fresh_run hrun
    obtain ⟨hpc, -⟩ := ifMaster_eq_some.mp ht
    simpa only [Fresh, hpc] using hf
  · intro t l hmem hl
    obtain ⟨newer, older, t', rfl, hrun, ht⟩ := run.of_mem hmem
    cases step_iff_rule.mp ht with
    | slave hr => exact currentOrder_of_readsCpu (coupled_run hrun).1 hr hl
  · intro hexit
    rcases exit_cause run hexit with hstop | herr
    · exact hstop
    · obtain ⟨e, he, hfail⟩ := affinityFailed_of_error_mem run herr
      exact absurd hfail (hok e he)

/-- One exchange between CPUs 0 and 1, followed by its comparison. -/
theorem checkTsc_freshness_exchange :
    ∃ t older s, (machine ⟨[(0, 1)], 1, 500⟩).Run ((t, .master .compare) :: older) s ∧
      t.sample = ⟨100, 150, 200⟩ ∧ Timed older t := by
  let labels : List Label :=
    [.master (.create true), .master (.affinity true), .master .storeCpu, .master .ready,
      .slave .sawReady, .slave .testStop, .slave .testCpu, .slave (.affinity true),
      .slave .setCurrent, .slave .ready, .master .sawReady, .master (.readT0 100),
      .master .done, .slave .sawDone, .slave (.write 150), .slave .done, .master .sawDone,
      .master (.readT1 200), .master .compare]
  have run := (machine ⟨[(0, 1)], 1, 500⟩).run_of_replay labels rfl
  exact ⟨_, _, _, run, rfl, (checkTsc_freshness run (by decide)).1 [] _ _ rfl⟩

end AutotestClient.CheckTsc
