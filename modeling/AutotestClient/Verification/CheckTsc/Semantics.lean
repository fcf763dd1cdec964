import AutotestClient.Model.CheckTsc
import Mathlib.Tactic.Common

/-! Rules of the two processes, one for each way a step can go. The invariants are proved
by cases on these rules; the equivalence theorems connect them to the step functions. -/

namespace AutotestClient.CheckTsc

variable {c : Config} {s s' : State}

inductive MasterRule (c : Config) (s : State) : MasterLabel → State → Prop where
  | create (hpc : s.masterPc = .create) :
      MasterRule c s (.create true) { s with masterPc := .pair, slavePc := .waitReady }
  | createFailed (hpc : s.masterPc = .create) :
      MasterRule c s (.create false) { s with masterPc := .returned (-1) }
  | affinity {a b rest} (hpc : s.masterPc = .pair) (htodo : s.todo = (a, b) :: rest) :
      MasterRule c s (.affinity true) { s with masterPc := .storeCpu, masterBound := some a }
  | affinityFailed {a b rest} (hpc : s.masterPc = .pair) (htodo : s.todo = (a, b) :: rest) :
      MasterRule c s (.affinity false)
        { s with masterPc := .pair, todo := rest, err := s.err + c.verdict (-1) }
  | storeCpu {a b rest} (hpc : s.masterPc = .storeCpu) (htodo : s.todo = (a, b) :: rest) :
      MasterRule c s .storeCpu
        { s with masterPc := c.loopPc 0, slaveCpu := b, iter := 0, best := .start }
  | ready (hpc : s.masterPc = .ready) :
      MasterRule c s .ready { s with masterPc := .waitReady, masterFlag := .ready }
  | sawReady (hpc : s.masterPc = .waitReady) (hflag : s.slaveFlag = .ready) :
      MasterRule c s .sawReady { s with masterPc := .readT0 }
  | readT0 (t : Tsc) (hpc : s.masterPc = .readT0) :
      MasterRule c s (.readT0 t) { s with masterPc := .done, t0 := t }
  | done (hpc : s.masterPc = .done) :
      MasterRule c s .done { s with masterPc := .waitDone, masterFlag := .done }
  | sawDone (hpc : s.masterPc = .waitDone) (hflag : s.slaveFlag = .done) :
      MasterRule c s .sawDone { s with masterPc := .readT1 }
  | readT1 (t : Tsc) (hpc : s.masterPc = .readT1) :
      MasterRule c s (.readT1 t) { s with masterPc := .compare, t1 := t }
  | compare (hpc : s.masterPc = .compare) :
      MasterRule c s .compare
        { s with
          masterPc := c.loopPc (s.iter + 1), iter := s.iter + 1, best := s.best.improve s.sample }
  | delta (hpc : s.masterPc = .delta) :
      MasterRule c s .delta
        { s with masterPc := .pair, todo := s.todo.tail, err := s.err + c.verdict s.best.delta }
  | storeStop (hpc : s.masterPc = .pair) (htodo : s.todo = []) :
      MasterRule c s .storeStop { s with masterPc := .stopReady, slaveCpu := -1 }
  | stopReady (hpc : s.masterPc = .stopReady) :
      MasterRule c s .stopReady { s with masterPc := .join, masterFlag := .ready }
  | join (hpc : s.masterPc = .join) (hexit : s.slavePc = .exited) :
      MasterRule c s .join { s with masterPc := .returned s.err }
  | retest (hwait : s.masterWaits = true) : MasterRule c s .retest s

inductive SlaveRule (s : State) : SlaveLabel → State → Prop where
  | sawReady (hpc : s.slavePc = .waitReady) (hflag : s.masterFlag = .ready) :
      SlaveRule s .sawReady { s with slavePc := .testStop }
  | stop (hpc : s.slavePc = .testStop) (hcpu : s.slaveCpu < 0) :
      SlaveRule s .testStop { s with slavePc := .exited }
  | go (hpc : s.slavePc = .testStop) (hcpu : ¬ s.slaveCpu < 0) :
      SlaveRule s .testStop { s with slavePc := .testCpu }
  | move (hpc : s.slavePc = .testCpu) (hcpu : s.slaveCpu ≠ s.currentCpu) :
      SlaveRule s .testCpu { s with slavePc := .affinity }
  | stay (hpc : s.slavePc = .testCpu) (hcpu : s.slaveCpu = s.currentCpu) :
      SlaveRule s .testCpu { s with slavePc := .ready }
  | affinity (hpc : s.slavePc = .affinity) :
      SlaveRule s (.affinity true) { s with slavePc := .setCurrent, slaveBound := some s.slaveCpu }
  | affinityFailed (hpc : s.slavePc = .affinity) :
      SlaveRule s (.affinity false) { s with slavePc := .error }
  | setCurrent (hpc : s.slavePc = .setCurrent) :
      SlaveRule s .setCurrent { s with slavePc := .ready, currentCpu := s.slaveCpu }
  | ready (hpc : s.slavePc = .ready) :
      SlaveRule s .ready { s with slavePc := .waitDone, slaveFlag := .ready }
  | sawDone (hpc : s.slavePc = .waitDone) (hflag : s.masterFlag = .done) :
      SlaveRule s .sawDone { s with slavePc := .write }
  | write (t : Tsc) (hpc : s.slavePc = .write) :
      SlaveRule s (.write t) { s with slavePc := .done, slaveTsc := t }
  | done (hpc : s.slavePc = .done) :
      SlaveRule s .done { s with slavePc := .waitReady, slaveFlag := .done }
  | error (hpc : s.slavePc = .error) :
      SlaveRule s .error { s with slavePc := .exited, slaveFlag := .error }
  | retest (hwait : s.slaveWaits = true) : SlaveRule s .retest s

/-- A step of either process. -/
inductive Rule (c : Config) (s : State) : Label → State → Prop where
  | master {l s'} (h : MasterRule c s l s') : Rule c s (.master l) s'
  | slave {l s'} (h : SlaveRule s l s') : Rule c s (.slave l) s'

@[simp] theorem ifMaster_eq_some {pc : MasterPc} {t : State} :
    s.ifMaster pc t = some s' ↔ s.masterPc = pc ∧ t = s' := by
  simp [State.ifMaster]

@[simp] theorem ifSlave_eq_some {pc : SlavePc} {t : State} :
    s.ifSlave pc t = some s' ↔ s.slavePc = pc ∧ t = s' := by
  simp [State.ifSlave]

theorem MasterRule.execution {l : MasterLabel} (h : MasterRule c s l s') :
    masterStep c s l = some s' := by
  cases h <;> simp_all [masterStep]

theorem SlaveRule.execution {l : SlaveLabel} (h : SlaveRule s l s') :
    slaveStep s l = some s' := by
  cases h <;> simp_all [slaveStep]

theorem masterStep_rule {l : MasterLabel} (hs : masterStep c s l = some s') :
    MasterRule c s l s' := by
  cases l with
  | create ok =>
      simp only [masterStep, ifMaster_eq_some] at hs
      obtain ⟨hpc, rfl⟩ := hs
      cases ok with
      | false => exact .createFailed hpc
      | true => exact .create hpc
  | affinity ok =>
      simp only [masterStep] at hs
      split at hs
      · cases hs
      · obtain ⟨hpc, rfl⟩ := ifMaster_eq_some.mp hs
        cases ok with
        | false => exact .affinityFailed hpc ‹_›
        | true => exact .affinity hpc ‹_›
  | storeCpu =>
      simp only [masterStep] at hs
      split at hs
      · cases hs
      · obtain ⟨hpc, rfl⟩ := ifMaster_eq_some.mp hs
        exact .storeCpu hpc ‹_›
  | storeStop =>
      simp only [masterStep] at hs
      split at hs
      · obtain ⟨hpc, rfl⟩ := ifMaster_eq_some.mp hs
        exact .storeStop hpc ‹_›
      · cases hs
  | sawReady =>
      simp only [masterStep, Option.ite_none_right_eq_some, ifMaster_eq_some] at hs
      obtain ⟨hflag, hpc, rfl⟩ := hs
      exact .sawReady hpc hflag
  | sawDone =>
      simp only [masterStep, Option.ite_none_right_eq_some, ifMaster_eq_some] at hs
      obtain ⟨hflag, hpc, rfl⟩ := hs
      exact .sawDone hpc hflag
  | join =>
      simp only [masterStep, Option.ite_none_right_eq_some, ifMaster_eq_some] at hs
      obtain ⟨hexit, hpc, rfl⟩ := hs
      exact .join hpc hexit
  | retest =>
      simp only [masterStep, Option.ite_none_right_eq_some, Option.some.injEq] at hs
      obtain ⟨hwait, rfl⟩ := hs
      exact .retest hwait
  | ready => obtain ⟨hpc, rfl⟩ := ifMaster_eq_some.mp hs; exact .ready hpc
  | readT0 t => obtain ⟨hpc, rfl⟩ := ifMaster_eq_some.mp hs; exact .readT0 t hpc
  | done => obtain ⟨hpc, rfl⟩ := ifMaster_eq_some.mp hs; exact .done hpc
  | readT1 t => obtain ⟨hpc, rfl⟩ := ifMaster_eq_some.mp hs; exact .readT1 t hpc
  | compare => obtain ⟨hpc, rfl⟩ := ifMaster_eq_some.mp hs; exact .compare hpc
  | delta => obtain ⟨hpc, rfl⟩ := ifMaster_eq_some.mp hs; exact .delta hpc
  | stopReady => obtain ⟨hpc, rfl⟩ := ifMaster_eq_some.mp hs; exact .stopReady hpc

theorem slaveStep_rule {l : SlaveLabel} (hs : slaveStep s l = some s') : SlaveRule s l s' := by
  cases l with
  | sawReady =>
      simp only [slaveStep, Option.ite_none_right_eq_some, ifSlave_eq_some] at hs
      obtain ⟨hflag, hpc, rfl⟩ := hs
      exact .sawReady hpc hflag
  | testStop =>
      obtain ⟨hpc, rfl⟩ := ifSlave_eq_some.mp hs
      split
      · exact .stop hpc ‹_›
      · exact .go hpc ‹_›
  | testCpu =>
      obtain ⟨hpc, rfl⟩ := ifSlave_eq_some.mp hs
      split
      · exact .move hpc ‹_›
      · exact .stay hpc (not_not.mp ‹_›)
  | affinity ok =>
      obtain ⟨hpc, rfl⟩ := ifSlave_eq_some.mp hs
      cases ok with
      | false => exact .affinityFailed hpc
      | true => exact .affinity hpc
  | sawDone =>
      simp only [slaveStep, Option.ite_none_right_eq_some, ifSlave_eq_some] at hs
      obtain ⟨hflag, hpc, rfl⟩ := hs
      exact .sawDone hpc hflag
  | retest =>
      simp only [slaveStep, Option.ite_none_right_eq_some, Option.some.injEq] at hs
      obtain ⟨hwait, rfl⟩ := hs
      exact .retest hwait
  | setCurrent => obtain ⟨hpc, rfl⟩ := ifSlave_eq_some.mp hs; exact .setCurrent hpc
  | ready => obtain ⟨hpc, rfl⟩ := ifSlave_eq_some.mp hs; exact .ready hpc
  | write t => obtain ⟨hpc, rfl⟩ := ifSlave_eq_some.mp hs; exact .write t hpc
  | done => obtain ⟨hpc, rfl⟩ := ifSlave_eq_some.mp hs; exact .done hpc
  | error => obtain ⟨hpc, rfl⟩ := ifSlave_eq_some.mp hs; exact .error hpc

/-- The rules describe exactly the steps of the machine. -/
theorem step_iff_rule {l : Label} : (machine c).step s l = some s' ↔ Rule c s l s' := by
  constructor
  · intro hs
    cases l with
    | master l => exact .master (masterStep_rule hs)
    | slave l => exact .slave (slaveStep_rule hs)
  · intro hr
    cases hr with
    | master h => exact h.execution
    | slave h => exact h.execution

end AutotestClient.CheckTsc
