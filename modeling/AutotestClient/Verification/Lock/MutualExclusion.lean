import AutotestClient.Model.Lock
import Mathlib.Tactic.Common

/-! # Mutual exclusion of `tc_lock` -/

namespace AutotestClient.Lock

open Shared

variable {P : Type*} [DecidableEq P]

/-! ## The lock file names its reader -/

theorem reads_iff (s : State P) (p : P) :
    s.reads p = true ↔ ∃ f, s.file = some f ∧ f.content = some p := by
  simp [State.reads, Option.any_eq_true]

theorem reads_unique {s : State P} {p q : P} (hp : s.reads p = true) (hq : s.reads q = true) :
    p = q := by
  obtain ⟨f, hf, hpf⟩ := (reads_iff s p).mp hp
  obtain ⟨g, hg, hqg⟩ := (reads_iff s q).mp hq
  obtain rfl : f = g := Option.some.inj (hf.symm.trans hg)
  exact Option.some.inj (hpf.symm.trans hqg)

@[simp] theorem goto_holder (s : State P) (p : P) (pc : Pc) :
    (s.goto p pc).holder = s.holder := rfl

@[simp] theorem goto_pc_self (s : State P) (p : P) (pc : Pc) : (s.goto p pc).pc p = pc := by
  simp [State.goto]

theorem goto_pc_of_ne {s : State P} {p q : P} {pc : Pc} (h : q ≠ p) :
    (s.goto p pc).pc q = s.pc q := by
  simp [State.goto, h]

/-! ## The invariant of all interleavings -/

/-- Holders, and processes about to return 0, have their pid in the lock file; a
process between creating and writing the file still has its own empty file there. -/
structure Inv (s : State P) : Prop where
  holder : ∀ p, s.holder p = true → s.reads p = true
  ret : ∀ p, s.pc p = .ret 0 → s.reads p = true
  write : ∀ p, s.pc p = .write → s.file = some ⟨some p, none⟩

theorem inv_init (stale : Option (Option P)) : Inv (machine stale).init :=
  ⟨by simp [machine], by simp [machine], by simp [machine]⟩

/-- A move of `p` alone keeps the invariant unless it brings `p` to `write` or, without
its pid in the file, to a return of 0. -/
theorem Inv.goto {s : State P} (hi : Inv s) {p : P} {pc : Pc}
    (hret : pc = .ret 0 → s.reads p = true) (hwrite : pc ≠ .write) : Inv (s.goto p pc) := by
  refine ⟨fun q hq => hi.holder q hq, fun q hq => ?_, fun q hq => ?_⟩
  · by_cases hqp : q = p
    · subst q
      exact hret (by simpa using hq)
    · exact hi.ret q (by rwa [goto_pc_of_ne hqp] at hq)
  · by_cases hqp : q = p
    · subst q
      exact absurd (by simpa using hq) hwrite
    · exact hi.write q (by rwa [goto_pc_of_ne hqp] at hq)

/-- With no lock file nobody holds the lock, returns 0 or is about to write. -/
theorem Inv.of_no_file {s : State P} (hi : Inv s) (hf : s.file = none) (p : P) :
    s.holder p = false ∧ s.pc p ≠ .ret 0 ∧ s.pc p ≠ .write := by
  have hr : ¬ s.reads p = true := by simp [State.reads, hf]
  refine ⟨?_, fun h => hr (hi.ret p h), fun h => ?_⟩
  · by_contra h
    exact hr (hi.holder p (by simpa using h))
  · simpa [hf] using hi.write p h

theorem inv_create {s : State P} (hi : Inv s) (p : P) (hf : s.file = none) :
    Inv { s.goto p .write with file := some ⟨some p, none⟩ } := by
  refine ⟨fun q hq => ?_, fun q hq => ?_, fun q hq => ?_⟩
  · exact absurd hq (by simp [(hi.of_no_file hf q).1])
  · by_cases hqp : q = p
    · subst q
      simp at hq
    · exact absurd (by simpa [goto_pc_of_ne hqp] using hq) (hi.of_no_file hf q).2.1
  · by_cases hqp : q = p
    · rw [hqp]
    · exact absurd (by simpa [goto_pc_of_ne hqp] using hq) (hi.of_no_file hf q).2.2

theorem inv_write {s : State P} (hi : Inv s) (p : P) (hpc : s.pc p = .write) :
    Inv { s.goto p (.ret 0) with file := s.file.map (LockFile.echo p) } := by
  have hfile := hi.write p hpc
  have hread : ∀ q, ¬ s.reads q = true := by simp [State.reads, hfile]
  refine ⟨fun q hq => ?_, fun q hq => ?_, fun q hq => ?_⟩
  · exact absurd (hi.holder q hq) (hread q)
  · by_cases hqp : q = p
    · simp [hqp, State.reads, hfile, LockFile.echo]
    · exact absurd (hi.ret q (by simpa [goto_pc_of_ne hqp] using hq)) (hread q)
  · by_cases hqp : q = p
    · subst q
      simp at hq
    · have hq' := hi.write q (by simpa [goto_pc_of_ne hqp] using hq)
      rw [hfile] at hq'
      simp only [Option.some.injEq, LockFile.mk.injEq, and_true] at hq'
      exact absurd hq'.symm hqp

theorem inv_ret {s : State P} (hi : Inv s) (p : P) (rc : ℕ) (hpc : s.pc p = .ret rc) :
    Inv { s.goto p .idle with
      holder := Function.update s.holder p (s.holder p || decide (rc = 0)) } := by
  have hgoto : Inv (s.goto p .idle) := hi.goto (by simp) (by simp)
  refine ⟨fun q hq => ?_, hgoto.ret, hgoto.write⟩
  by_cases hqp : q = p
  · subst q
    simp only [Function.update_self, Bool.or_eq_true, decide_eq_true_eq] at hq
    rcases hq with hq | rfl
    · exact hi.holder p hq
    · exact hi.ret p hpc
  · exact hi.holder q (by simpa [Function.update_of_ne hqp] using hq)

theorem inv_release {s : State P} (hi : Inv s) (p : P) (hpc : s.pc p = .idle)
    (hp : s.holder p = true) :
    Inv { s with file := none, holder := Function.update s.holder p false } := by
  have hread := hi.holder p hp
  refine ⟨fun q hq => ?_, fun q hq => ?_, fun q hq => ?_⟩
  · by_cases hqp : q = p
    · subst q
      simp at hq
    · have hq' := hi.holder q (by simpa [Function.update_of_ne hqp] using hq)
      exact absurd (reads_unique hq' hread) hqp
  · obtain rfl := reads_unique (hi.ret q hq) hread
    rw [hpc] at hq
    cases hq
  · obtain ⟨f, hf, hcontent⟩ := (reads_iff s p).mp hread
    have hq' : s.file = some ⟨some q, none⟩ := hi.write q hq
    rw [hq'] at hf
    obtain rfl := Option.some.inj hf
    cases hcontent

theorem inv_step {s s' : State P} {l : Label P} (hi : Inv s) (hs : step s l = some s') :
    Inv s' := by
  cases l with
  | call p testonly ctr =>
      simp only [step] at hs
      split at hs <;> cases hs
      exact hi.goto (by split <;> simp) (by split <;> simp)
  | compare p =>
      simp only [step] at hs
      split at hs <;> cases hs
      refine hi.goto (fun hpc => ?_) (by split_ifs <;> simp)
      by_contra hr
      rw [if_neg hr] at hpc
      split at hpc <;> cases hpc
  | decrement p =>
      simp only [step] at hs
      split at hs <;> cases hs
      · exact hi.goto (by simp) (by simp)
      · exact hi.goto (by simp) (by simp)
  | create p =>
      simp only [step] at hs
      split at hs
      · split at hs <;> cases hs
        · exact inv_create hi p ‹_›
        · exact hi.goto (by simp) (by simp)
      · cases hs
  | write p =>
      simp only [step] at hs
      split at hs <;> cases hs
      exact inv_write hi p ‹_›
  | ret p =>
      simp only [step] at hs
      split at hs <;> cases hs
      exact inv_ret hi p _ ‹_›
  | release p =>
      simp only [step] at hs
      split at hs
      · split at hs <;> cases hs
        exact inv_release hi p ‹_› ‹_›
      · cases hs

theorem inv_run {stale : Option (Option P)} {h : List (State P × Label P)} {s : State P}
    (run : (machine stale).Run h s) : Inv s :=
  run.invariant (I := fun _ s => Inv s) (inv_init stale) fun _ _ _ _ _ hi hs => inv_step hi hs

/-! ## The attempt budget of a call -/

/-- Creation attempts a call may still make from where it is. -/
def Pc.budget : Pc → ℕ
  | .compare _ ctr => ctr
  | .loop ctr => ctr
  | .create ctr => ctr + 1
  | _ => 0

/-- What each process has tried in its last call and may still try stays within the
count that call was given. -/
def WithinBudget (h : List (State P × Label P)) (s : State P) : Prop :=
  ∀ p ctr, lastCall p h = some ctr → attempts p h + (s.pc p).budget ≤ ctr

theorem WithinBudget.mono {h h' : List (State P × Label P)} {s s' : State P} {p : P}
    (hb : WithinBudget h s) (hcall : ∀ q, lastCall q h' = lastCall q h)
    (hatt : ∀ q, q ≠ p → attempts q h' = attempts q h)
    (hpc : ∀ q, q ≠ p → s'.pc q = s.pc q)
    (hp : attempts p h' + (s'.pc p).budget ≤ attempts p h + (s.pc p).budget) :
    WithinBudget h' s' := by
  intro q ctr hq
  have hb' := hb q ctr (by rwa [hcall] at hq)
  by_cases hqp : q = p
  · subst q
    exact Nat.le_trans hp hb'
  · rwa [hatt q hqp, hpc q hqp]

theorem withinBudget_call {h : List (State P × Label P)} {s : State P} (p : P) (t : Bool) (ctr : ℕ)
    (hb : WithinBudget h s) :
    WithinBudget ((s, .call p t ctr) :: h)
      (s.goto p (if 0 < ctr then .compare t ctr else .exited)) := by
  intro q n hq
  by_cases hqp : q = p
  · subst q
    obtain rfl : ctr = n := by simpa [lastCall] using hq
    simp only [attempts, ite_true, goto_pc_self, Nat.zero_add]
    split <;> simp [Pc.budget]
  · have hpq : ¬ p = q := fun e => hqp e.symm
    simp only [lastCall, attempts, hpq, ite_false] at hq ⊢
    rw [goto_pc_of_ne hqp]
    exact hb q n hq

theorem withinBudget_step {h : List (State P × Label P)} {s s' : State P} {l : Label P}
    (hb : WithinBudget h s) (hs : step s l = some s') : WithinBudget ((s, l) :: h) s' := by
  cases l with
  | call p t ctr =>
      simp only [step] at hs
      split at hs <;> cases hs
      exact withinBudget_call p t ctr hb
  | compare p =>
      simp only [step] at hs
      split at hs <;> cases hs
      rename_i t ctr hpc
      refine hb.mono (p := p) (fun _ => rfl) (fun _ _ => rfl) (fun q hq => goto_pc_of_ne hq) ?_
      rw [goto_pc_self, hpc]
      simp only [attempts, Pc.budget]
      split_ifs <;> simp
  | decrement p =>
      simp only [step] at hs
      split at hs <;> cases hs
      all_goals
        rename_i hpc
        refine hb.mono (p := p) (fun _ => rfl) (fun _ _ => rfl) (fun q hq => goto_pc_of_ne hq) ?_
        simp [hpc, attempts, Pc.budget]
  | create p =>
      simp only [step] at hs
      split at hs
      · rename_i ctr hpc
        have hatt : ∀ q, q ≠ p → attempts q ((s, .create p) :: h) = attempts q h := by
          intro q hq
          simp [attempts, hq.symm]
        split at hs <;> cases hs
        all_goals
          refine hb.mono (p := p) (fun _ => rfl) hatt (fun q hq => goto_pc_of_ne hq) ?_
          simp [State.goto, hpc, attempts, Pc.budget]
          try omega
      · cases hs
  | write p =>
      simp only [step] at hs
      split at hs <;> cases hs
      refine hb.mono (p := p) (fun _ => rfl) (fun _ _ => rfl) (fun q hq => goto_pc_of_ne hq) ?_
      simp [State.goto, attempts, Pc.budget]
  | ret p =>
      simp only [step] at hs
      split at hs <;> cases hs
      refine hb.mono (p := p) (fun _ => rfl) (fun _ _ => rfl) (fun q hq => goto_pc_of_ne hq) ?_
      simp [State.goto, attempts, Pc.budget]
  | release p =>
      simp only [step] at hs
      split at hs
      · split at hs <;> cases hs
        exact hb.mono (p := p) (fun _ => rfl) (fun _ _ => rfl) (fun _ _ => rfl) (Nat.le_refl _)
      · cases hs

theorem withinBudget_run {stale : Option (Option P)} {h : List (State P × Label P)} {s : State P}
    (run : (machine stale).Run h s) : WithinBudget h s :=
  run.invariant (I := WithinBudget) (by simp [WithinBudget, lastCall])
    fun _ _ _ _ _ hb hs => withinBudget_step hb hs

/-! ## Mutual exclusion -/

/-- In every interleaving at most one process holds the lock; a `tc_lock` that returns
0 leaves its caller the one holder, named by the lock file; and no call tries to create
the file more often than it was told to. -/
theorem tcLock_mutual_exclusion (stale : Option (Option P)) {h : List (State P × Label P)}
    {s : State P} (run : (machine stale).Run h s) :
    (∀ p q, s.holder p = true → s.holder q = true → p = q) ∧
    (∀ p s', s.pc p = .ret 0 → step s (.ret p) = some s' →
      s'.holder p = true ∧ s'.reads p = true ∧ ∀ q, s'.holder q = true → q = p) ∧
    (∀ p ctr, lastCall p h = some ctr → attempts p h ≤ ctr) := by
  have hi := inv_run run
  refine ⟨fun p q hp hq => reads_unique (hi.holder p hp) (hi.holder q hq), ?_, ?_⟩
  · intro p s' hpc hs
    have hi' := inv_step hi hs
    have hp : s'.holder p = true := by
      simp only [step, hpc, Option.some.injEq] at hs
      subst s'
      simp
    refine ⟨hp, hi'.holder p hp, fun q hq => ?_⟩
    exact reads_unique (hi'.holder q hq) (hi'.holder p hp)
  · intro p ctr hctr
    exact Nat.le_trans (Nat.le_add_right _ _) (withinBudget_run run p ctr hctr)

/-- Process 7 takes the lock in one attempt while process 9 fails its only one. -/
theorem tcLock_mutual_exclusion_contended :
    ∃ h s, (machine (none : Option (Option ℕ))).Run h s ∧ s.pc 7 = .ret 0 ∧
      lastCall 9 h = some 1 ∧ attempts 9 h = 1 ∧
      (∀ p q, s.holder p = true → s.holder q = true → p = q) ∧ attempts 9 h ≤ 1 := by
  let labels : List (Label ℕ) := [.call 7 false 10, .call 9 false 1, .compare 9, .compare 7,
    .decrement 7, .create 7, .decrement 9, .create 9, .write 7]
  have run := (machine (none : Option (Option ℕ))).run_of_replay labels rfl
  have hall := tcLock_mutual_exclusion none run
  exact ⟨_, _, run, rfl, rfl, rfl, hall.1, hall.2.2 9 1 rfl⟩

end AutotestClient.Lock
