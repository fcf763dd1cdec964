import AutotestClient.Model.Aiostress.Worker
import Mathlib.Tactic.Common

/-! # The steps of an aio-stress thread -/

namespace AutotestClient.Aiostress.Worker

variable {c : Config} {s s' : State c} {l : Label c}

/-- What each label does, with the conditions under which it can be taken. -/
inductive Step (s : State c) : Label c → State c → Prop where
  | allSent {ending : Bool} (hpc : s.pc = .loop)
      (hend : s.active = [] ∨ s.more = false) :
      Step s (.test ending) { s with pc := .wait s.finished }
  | cutOff {o : Oper c} {rest : List (Oper c)} (hpc : s.pc = .loop) (hactive : s.active = o :: rest)
      (hwall : c.stonewall) (hmore : s.more) :
      Step s (.test true)
        { s.setOper o { s.opers o with stonewalled := true } with
          active := operListDel o s.active
          finished := operListAdd o s.finished
          cnt := s.cnt + 1 }
  | runActive {ending : Bool} {o : Oper c} {rest : List (Oper c)} (hpc : s.pc = .loop)
      (hactive : s.active = o :: rest) (hopen : (c.stonewall && ending) = false) :
      Step s (.test ending) { s with pc := .scan o ⟨[], []⟩, cnt := s.cnt + 1 }
  | runnable {large : Bool} {o : Oper c} {batch : Batch c} (hpc : s.pc = .scan o batch) :
      Step s (.runnable large) { s with pc := .build o (buildCount s o) batch }
  | allScanned {large : Bool} {o : Oper c} {batch : Batch c} (hpc : s.pc = .scan o batch)
      (hlast : nextActive s o = s.active.head?) :
      Step s (.runnable large) (s.runBuilt batch)
  | skip {large : Bool} {o next : Oper c} {batch : Batch c} (hpc : s.pc = .scan o batch)
      (hnext : nextActive s o = some next) :
      Step s (.runnable large) { s with pc := .scan next batch }
  | badUnit {offset left : ℕ} {o : Oper c} {batch : Batch c} {v : Iou c} {free : List (Iou c)}
      (hpc : s.pc = .build o (left + 1) batch) (hfree : s.free = v :: free)
      (hbusy : (s.units v).busy = true) : Step s (.grab offset) { s with pc := .badUnit }
  | grab {offset left : ℕ} {o : Oper c} {batch : Batch c} {v : Iou c} {free : List (Iou c)}
      (hpc : s.pc = .build o (left + 1) batch) (hfree : s.free = v :: free)
      (hbusy : (s.units v).busy = false) :
      Step s (.grab offset)
        { s.buildIocb v o offset with
          free := free
          pc := .build o left { batch with iocbs := batch.iocbs ++ [v] } }
  | builtLast {o : Oper c} {batch : Batch c} (hpc : s.pc = .build o 0 batch) :
      Step s .built
        ({ s with active := operListDel o s.active }.runBuilt
          { batch with built := operListAdd o batch.built })
  | built {o next : Oper c} {batch : Batch c} {rest : List (Oper c)}
      (hpc : s.pc = .build o 0 batch) (hactive : operListDel o s.active = next :: rest)
      (hroom : batch.iocbs.length + c.ioIter ≤ c.maxIoSubmit) :
      Step s .built
        { s with
          active := operListDel o s.active
          pc := .scan next { batch with built := operListAdd o batch.built } }
  | starved {left : ℕ} {o : Oper c} {batch : Batch c} (hpc : s.pc = .build o (left + 1) batch)
      (hfree : s.free = []) (hreap : s.mayReap s.minNr []) :
      Step s (.reap []) { s with pc := .starved }
  | reapBuild {left : ℕ} {o : Oper c} {batch : Batch c} {events : List (Event c)}
      (hpc : s.pc = .build o (left + 1) batch) (hreap : s.mayReap s.minNr events) :
      Step s (.reap events) (s.readEvents events)
  | aborted {batch : Batch c} (hpc : s.pc = .resubmit batch) (hreap : s.mayReap s.minNr []) :
      Step s (.reap []) { s with pc := .aborted }
  | reapSubmit {batch : Batch c} {events : List (Event c)} (hpc : s.pc = .resubmit batch)
      (hreap : s.mayReap s.minNr events) :
      Step s (.reap events) { s.readEvents events with pc := .submit batch }
  | reapWait {o : Oper c} {rest : List (Oper c)} {events : List (Event c)}
      (hpc : s.pc = .wait (o :: rest)) (hreap : s.mayReap 1 events) :
      Step s (.reap events) (s.readEvents events)
  | submitSome {ret : ℕ} {batch : Batch c} (hpc : s.pc = .submit batch) (hpos : 0 < ret)
      (hret : ret < batch.iocbs.length) :
      Step s (.submit ret)
        { s.updateIouCounters (batch.iocbs.take ret) with
          pc := .resubmit { batch with iocbs := batch.iocbs.drop ret } }
  | submitAll {ret : ℕ} {batch : Batch c} (hpc : s.pc = .submit batch)
      (hret : ret = batch.iocbs.length) :
      Step s (.submit ret)
        { batch.built.foldl State.requeue (s.updateIouCounters batch.iocbs) with pc := .loop }
  | again {batch : Batch c} (hpc : s.pc = .submit batch) :
      Step s .again { s with pc := .resubmit batch }
  | submitFails {batch : Batch c} (hpc : s.pc = .submit batch) :
      Step s .submitFails { s with pc := .failed }
  | allWaited (hpc : s.pc = .wait []) : Step s .waited { s with pc := .drained }
  | waited {o : Oper c} {rest : List (Oper c)} (hpc : s.pc = .wait (o :: rest))
      (hdone : (s.opers o).numPending = 0) : Step s .waited { s with pc := .wait rest }
  | restart (hpc : s.pc = .drained)
      (hactive : (s.finished.foldl State.restart s).active ≠ []) :
      Step s .restart { s.finished.foldl State.restart s with pc := .loop, cnt := 0 }
  | stop (hpc : s.pc = .drained)
      (hend : (s.finished.foldl State.restart s).active = [] ∨
        (s.finished.foldl State.restart s).more = false) :
      Step s .restart { s.finished.foldl State.restart s with pc := .ended }

theorem Step.of_test {ending : Bool} (hs : step c s (.test ending) = some s') :
    Step s (.test ending) s' := by
  simp only [step] at hs
  split at hs
  · rename_i hpc
    split at hs
    · rename_i hactive
      cases hs
      exact .allSent hpc (.inl hactive)
    · rename_i o rest hactive
      split at hs
      · rename_i hmore
        split at hs
        · rename_i hwall
          simp only [Bool.and_eq_true] at hwall
          cases hs
          rw [hwall.2]
          exact .cutOff hpc hactive hwall.1 hmore
        · rename_i hopen
          cases hs
          exact .runActive hpc hactive (by simpa using hopen)
      · rename_i hmore
        cases hs
        exact .allSent hpc (.inr (by simpa using hmore))
  · cases hs

theorem Step.of_runnable {large : Bool} (hs : step c s (.runnable large) = some s') :
    Step s (.runnable large) s' := by
  simp only [step] at hs
  split at hs
  · rename_i o batch hpc
    split at hs
    · cases hs
      exact .runnable hpc
    · split at hs
      · rename_i hlast
        cases hs
        exact .allScanned hpc hlast
      · simp only [Option.map_eq_some_iff] at hs
        obtain ⟨next, hnext, rfl⟩ := hs
        exact .skip hpc hnext
  · cases hs

theorem Step.of_grab {offset : ℕ} (hs : step c s (.grab offset) = some s') :
    Step s (.grab offset) s' := by
  simp only [step] at hs
  split at hs
  · rename_i o left batch v free hpc hfree
    split at hs
    · cases hs
      exact .badUnit hpc hfree ‹_›
    · rename_i hbusy
      cases hs
      exact .grab hpc hfree (by simpa using hbusy)
  · cases hs

theorem Step.of_built (hs : step c s .built = some s') : Step s .built s' := by
  simp only [step] at hs
  split at hs
  · rename_i o batch hpc
    split at hs
    · cases hs
      exact .builtLast hpc
    · rename_i hroom
      split at hs
      · rename_i hactive
        cases hs
        exact hactive ▸ .builtLast hpc
      · rename_i next rest hactive
        cases hs
        exact .built hpc hactive (by omega)
  · cases hs

theorem Step.of_reap {events : List (Event c)} (hs : step c s (.reap events) = some s') :
    Step s (.reap events) s' := by
  simp only [step] at hs
  split at hs
  · rename_i hpc
    split at hs
    · rename_i hguard
      split at hs <;> cases hs
      · subst_vars
        exact .starved hpc hguard.1 hguard.2
      · exact .reapBuild hpc hguard.2
    · cases hs
  · rename_i hpc
    split at hs
    · rename_i hreap
      split at hs <;> cases hs
      · subst_vars
        exact .aborted hpc hreap
      · exact .reapSubmit hpc hreap
    · cases hs
  · rename_i hpc
    split at hs <;> cases hs
    rename_i hguard
    exact .reapWait hpc hguard.2.1
  · cases hs

theorem Step.of_submit {ret : ℕ} (hs : step c s (.submit ret) = some s') :
    Step s (.submit ret) s' := by
  simp only [step] at hs
  split at hs
  · rename_i batch hpc
    split at hs
    · rename_i hguard
      cases hs
      exact .submitSome hpc hguard.1 hguard.2
    · split at hs <;> cases hs
      exact .submitAll hpc ‹_›
  · cases hs

theorem Step.of_step (hs : step c s l = some s') : Step s l s' := by
  cases l with
  | test ending => exact .of_test hs
  | runnable large => exact .of_runnable hs
  | grab offset => exact .of_grab hs
  | built => exact .of_built hs
  | reap events => exact .of_reap hs
  | submit ret => exact .of_submit hs
  | again =>
      simp only [step] at hs
      split at hs <;> cases hs
      exact .again ‹_›
  | submitFails =>
      simp only [step] at hs
      split at hs <;> cases hs
      exact .submitFails ‹_›
  | waited =>
      simp only [step] at hs
      split at hs
      · cases hs
        exact .allWaited ‹_›
      · split at hs <;> cases hs
        exact .waited ‹_› ‹_›
      · cases hs
  | restart =>
      simp only [step] at hs
      split at hs
      · rename_i hpc
        split at hs <;> cases hs
        · rename_i hguard
          exact .restart hpc hguard.1
        · rename_i hguard
          refine .stop hpc ?_
          by_cases hactive : (s.finished.foldl State.restart s).active = []
          · exact .inl hactive
          · exact .inr (by simpa [hactive] using hguard)
      · cases hs

end AutotestClient.Aiostress.Worker
