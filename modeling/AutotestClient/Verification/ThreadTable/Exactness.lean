import AutotestClient.Model.ThreadTable
import Mathlib.Algebra.Ring.Int.Defs
import Mathlib.Data.List.Range
import Mathlib.Data.List.Nodup

/-! # When the thread table is exact

Both creating functions return `num_threads`, and `create_threads` never compares it with
`MAX_THREADS`: the table is exact along a run whose creating calls all find it empty. -/

namespace AutotestClient.ThreadTable

variable {s s' t : State} {d e : ℕ}

/-! ### Creating threads -/

/-- `s'` has `d` more threads than `s`, in the entries after those of `s`. -/
structure Extends (s s' : State) (d : ℕ) : Prop where
  numThreads : s'.numThreads = s.numThreads + d
  created : s'.created = s.created + d
  joined : s'.joined = s.joined
  returned : s'.returned = s.returned
  accessed : ∀ i ∈ s.accessed, i ∈ s'.accessed
  entries : 0 ≤ s.numThreads → s'.entries = s.entries ++ List.range' s.created d

theorem Extends.refl (s : State) : Extends s s 0 :=
  ⟨by simp, rfl, rfl, rfl, fun _ hi => hi, fun _ => by simp⟩

theorem Extends.trans (h : Extends s t d) (h' : Extends t s' e) : Extends s s' (d + e) := by
  constructor
  · rw [h'.numThreads, h.numThreads, Nat.cast_add, add_assoc]
  · rw [h'.created, h.created, Nat.add_assoc]
  · rw [h'.joined, h.joined]
  · rw [h'.returned, h.returned]
  · intro i hi
    exact h'.accessed i (h.accessed i hi)
  · intro hnonneg
    have hnonneg' : 0 ≤ t.numThreads := by
      rw [h.numThreads]
      omega
    rw [h'.entries hnonneg', h.entries hnonneg, h.created, List.append_assoc,
      List.range'_append_1]

section Spawn

variable (cpus : Finset ℕ) (func arg : ℕ)

/-- The entries in use do not depend on the entry after them. -/
theorem entries_update (hnonneg : 0 ≤ s.numThreads) (thread : Thread) :
    ((List.range s.numThreads.toNat).map fun i : ℕ =>
      (Function.update s.threads s.numThreads thread i).thread) = s.entries := by
  apply List.map_congr_left
  intro i hi
  have hne : (i : ℤ) ≠ s.numThreads := by
    have := List.mem_range.mp hi
    omega
  rw [Function.update_of_ne hne]

theorem extends_spawn_failed : Extends s (s.spawn cpus func arg true) 0 := by
  refine ⟨by simp [State.spawn], rfl, rfl, rfl, ?_, ?_⟩
  · intro i hi
    exact List.mem_cons_of_mem _ hi
  · intro hnonneg
    simpa [State.spawn, State.entries] using entries_update hnonneg _

theorem extends_spawn : Extends s (s.spawn cpus func arg false) 1 := by
  refine ⟨rfl, rfl, rfl, rfl, ?_, ?_⟩
  · intro i hi
    exact List.mem_cons_of_mem _ hi
  · intro hnonneg
    have hsucc : (s.numThreads + 1).toNat = s.numThreads.toNat + 1 := by omega
    have hself : ((s.numThreads.toNat : ℕ) : ℤ) = s.numThreads := Int.toNat_of_nonneg hnonneg
    simp only [State.spawn, State.entries, Bool.false_eq_true, if_false, hsucc,
      List.range_succ, List.map_append, List.map_cons, List.map_nil, Function.update_idem,
      hself, Function.update_self, List.range'_one]
    rw [entries_update hnonneg]
    rfl

end Spawn

section Loops

variable (func arg : ℕ) (fails : ℕ → Bool)

theorem extends_perCpuLoop (cpus : Finset ℕ) (rest : List ℕ) (k : ℕ) (s : State) :
    ∃ d, Extends s (perCpuLoop func arg fails cpus rest k s) d := by
  induction rest generalizing k s with
  | nil => exact ⟨0, .refl s⟩
  | cons cpu rest ih =>
      simp only [perCpuLoop]
      split_ifs
      · exact ⟨0, .refl s⟩
      · exact ⟨0, extends_spawn_failed {cpu} func arg⟩
      · obtain ⟨d, hd⟩ := ih (k + 1) (s.spawn {cpu} func arg false)
        exact ⟨1 + d, (extends_spawn {cpu} func arg).trans hd⟩
      · exact ih k s

theorem extends_createLoop (m k : ℕ) (s : State) :
    ∃ d, Extends s (createLoop func arg fails m k s) d := by
  induction m generalizing k s with
  | zero => exact ⟨0, .refl s⟩
  | succ m ih =>
      simp only [createLoop]
      split_ifs
      · exact ⟨0, extends_spawn_failed ∅ func arg⟩
      · obtain ⟨d, hd⟩ := ih (k + 1) (s.spawn ∅ func arg false)
        exact ⟨1 + d, (extends_spawn ∅ func arg).trans hd⟩

theorem extends_createPerCpuThreads (cpus : Finset ℕ) (s : State) :
    ∃ d, Extends s (createPerCpuThreads func arg fails cpus s).2 d := by
  apply extends_perCpuLoop

theorem extends_createThreads (nthreads : BitVec 32) (s : State) :
    ∃ d, Extends s (createThreads func arg fails nthreads s).2 d := by
  apply extends_createLoop

end Loops

/-! ### Staying inside the table -/

/-- The counter and all accesses so far are within the array. -/
structure InTable (s : State) : Prop where
  nonneg : 0 ≤ s.numThreads
  le_max : s.numThreads ≤ maxThreads
  accessed : ∀ i ∈ s.accessed, 0 ≤ i ∧ i < maxThreads

theorem InTable.spawn (h : InTable s) (hlt : s.numThreads < maxThreads) (cpus : Finset ℕ)
    (func arg : ℕ) (err : Bool) : InTable (s.spawn cpus func arg err) := by
  have hnonneg := h.nonneg
  have haccessed : (s.spawn cpus func arg err).accessed = s.numThreads :: s.accessed := by
    cases err <;> rfl
  have hnum : (s.spawn cpus func arg err).numThreads =
      if err then s.numThreads + 1 - 1 else s.numThreads + 1 := by
    cases err <;> rfl
  refine ⟨?_, ?_, ?_⟩
  · rw [hnum]
    split_ifs <;> omega
  · rw [hnum]
    split_ifs <;> omega
  · intro i hi
    rw [haccessed] at hi
    rcases List.mem_cons.mp hi with rfl | hi
    · exact ⟨hnonneg, hlt⟩
    · exact h.accessed i hi

section Loops

variable (func arg : ℕ) (fails : ℕ → Bool)

theorem InTable.perCpuLoop (cpus : Finset ℕ) (rest : List ℕ) (k : ℕ) (h : InTable s) :
    InTable (perCpuLoop func arg fails cpus rest k s) := by
  induction rest generalizing k s with
  | nil => exact h
  | cons cpu rest ih =>
      simp only [ThreadTable.perCpuLoop]
      split_ifs with hset hfull
      · exact h
      · exact h.spawn (not_le.mp hfull) _ _ _ _
      · exact ih (k + 1) (h.spawn (not_le.mp hfull) _ _ _ _)
      · exact ih k h

/-- A round with the table full takes the entry behind it, and later rounds do not make
that good. -/
theorem not_inTable_createLoop (m k : ℕ) (hfull : maxThreads ≤ s.numThreads) :
    ¬InTable (createLoop func arg fails (m + 1) k s) := by
  intro h
  have hmem : s.numThreads ∈ (createLoop func arg fails (m + 1) k s).accessed := by
    simp only [createLoop]
    split_ifs
    · exact List.mem_cons_self
    · obtain ⟨d, hd⟩ := extends_createLoop func arg fails m (k + 1) (s.spawn ∅ func arg false)
      exact hd.accessed _ List.mem_cons_self
  exact absurd (h.accessed _ hmem).2 (not_lt.mpr hfull)

/-- `create_threads` stays inside the table exactly if its rounds fit into what is free, or
a `pthread_create` fails while there is a free entry. -/
theorem inTable_createLoop_iff (m k : ℕ) (h : InTable s) :
    InTable (createLoop func arg fails m k s) ↔
      s.numThreads + m ≤ maxThreads ∨
        ∃ j : ℕ, s.numThreads + j < maxThreads ∧ fails (k + j) = true := by
  induction m generalizing k s with
  | zero => simpa [createLoop, h] using Or.inl h.le_max
  | succ m ih =>
      rcases h.le_max.eq_or_lt with hfull | hlt
      · apply iff_of_false (not_inTable_createLoop func arg fails m k hfull.ge)
        rintro (hm | ⟨j, hj, -⟩) <;> omega
      · cases hk : fails k with
        | true =>
            simp only [createLoop, hk, if_true]
            exact iff_of_true (h.spawn hlt _ _ _ _) (.inr ⟨0, by simpa using hlt, hk⟩)
        | false =>
            have hnum : (s.spawn ∅ func arg false).numThreads = s.numThreads + 1 := rfl
            simp only [createLoop, hk, Bool.false_eq_true, if_false]
            rw [ih (k + 1) (h.spawn hlt _ _ _ _), hnum]
            apply or_congr
            · push_cast
              omega
            · constructor
              · rintro ⟨j, hj, hfail⟩
                exact ⟨j + 1, by push_cast; omega, by rwa [Nat.add_right_comm] at hfail⟩
              · rintro ⟨j, hj, hfail⟩
                cases j with
                | zero => simp [hk] at hfail
                | succ j =>
                    exact ⟨j, by push_cast at hj; omega, by rwa [Nat.add_right_comm]⟩

end Loops

/-! ### Joining threads -/

/-- `join_threads` empties the table, newest entry first. -/
structure Joined (s s' : State) : Prop where
  numThreads : s'.numThreads = 0
  joined : s'.joined = s.joined ++ s.entries.reverse
  created : s'.created = s.created
  returned : s'.returned = s.returned
  accessed : ∀ i ∈ s'.accessed, i ∈ s.accessed ∨ 0 ≤ i ∧ i < s.numThreads

theorem entries_joinLast (hpos : 0 < s.numThreads) :
    s.entries = s.joinLast.entries ++ [(s.threads (s.numThreads - 1)).thread] := by
  have hsucc : s.numThreads.toNat = (s.numThreads - 1).toNat + 1 := by omega
  have hlast : (((s.numThreads - 1).toNat : ℕ) : ℤ) = s.numThreads - 1 := by omega
  simp only [State.entries, State.joinLast]
  rw [hsucc, List.range_succ, List.map_append, List.map_singleton, hlast]

theorem joined_joinLoop (m : ℕ) (hm : s.numThreads = m) : Joined s (joinLoop m s) := by
  induction m generalizing s with
  | zero =>
      have hnone : s.entries = [] := by simp [State.entries, hm]
      refine ⟨by simpa [joinLoop] using hm, by simp [joinLoop, hnone], rfl, rfl, ?_⟩
      intro i hi
      exact .inl hi
  | succ m ih =>
      have hpos : 0 < s.numThreads := by omega
      have hlast : s.joinLast.numThreads = m := by
        simp only [State.joinLast]
        omega
      have h := ih hlast
      simp only [joinLoop, if_pos hpos]
      refine ⟨h.numThreads, ?_, h.created, h.returned, ?_⟩
      · rw [h.joined, entries_joinLast hpos, List.reverse_append, List.reverse_singleton,
          List.singleton_append]
        simp [State.joinLast]
      · intro i hi
        rcases h.accessed i hi with hi | ⟨hnonneg, hlt⟩
        · rcases List.mem_cons.mp hi with rfl | hi
          · exact .inr ⟨by omega, by omega⟩
          · exact .inl hi
        · exact .inr ⟨hnonneg, by omega⟩

theorem joined_joinThreads (hnonneg : 0 ≤ s.numThreads) : Joined s (joinThreads s) :=
  joined_joinLoop _ (Int.toNat_of_nonneg hnonneg).symm

/-! ### What holds without condition -/

/-- The entries in use are the live threads, each once. -/
structure Consistent (s : State) : Prop where
  nonneg : 0 ≤ s.numThreads
  nodup : s.entries.Nodup
  live : ∀ t, t ∈ s.entries ↔ t < s.created ∧ t ∉ s.joined
  old : ∀ t ∈ s.joined, t < s.created

theorem Consistent.extend (h : Consistent s) (hext : Extends s s' d) : Consistent s' := by
  have hentries := hext.entries h.nonneg
  have hold : ∀ t ∈ s.entries, t < s.created := fun t ht => ((h.live t).mp ht).1
  refine ⟨?_, ?_, ?_, ?_⟩
  · rw [hext.numThreads]
    have := h.nonneg
    omega
  · rw [hentries, List.nodup_append']
    refine ⟨h.nodup, List.nodup_range', ?_⟩
    intro t ht ht'
    have hlt := hold t ht
    have hge := (List.mem_range'_1.mp ht').1
    omega
  · intro t
    rw [hentries, hext.created, hext.joined, List.mem_append, h.live, List.mem_range'_1]
    constructor
    · rintro (⟨hlt, hjoined⟩ | ⟨hge, hlt⟩)
      · exact ⟨by omega, hjoined⟩
      · refine ⟨hlt, fun hjoined => ?_⟩
        have := h.old t hjoined
        omega
    · rintro ⟨hlt, hjoined⟩
      by_cases hnew : t < s.created
      · exact .inl ⟨hnew, hjoined⟩
      · exact .inr ⟨by omega, hlt⟩
  · intro t ht
    rw [hext.joined] at ht
    rw [hext.created]
    have := h.old t ht
    omega

theorem Consistent.joinThreads (h : Consistent s) : Consistent (joinThreads s) := by
  have hjoin := joined_joinThreads h.nonneg
  have hnone : (ThreadTable.joinThreads s).entries = [] := by
    simp [State.entries, hjoin.numThreads]
  have hmem : ∀ t, t ∈ (ThreadTable.joinThreads s).joined ↔ t ∈ s.joined ∨ t ∈ s.entries := by
    intro t
    rw [hjoin.joined, List.mem_append, List.mem_reverse]
  refine ⟨by rw [hjoin.numThreads], by simp [hnone], ?_, ?_⟩
  · intro t
    rw [hnone, hjoin.created, hmem, h.live]
    by_cases hjoined : t ∈ s.joined <;> simp [hjoined]
  · intro t ht
    rw [hjoin.created]
    rcases (hmem t).mp ht with ht | ht
    · exact h.old t ht
    · exact ((h.live t).mp ht).1

/-- Noting a return value changes nothing else. -/
theorem Consistent.record {before : State} {r : ℤ × State} (h : Consistent r.2) :
    Consistent (before.record r) :=
  ⟨h.nonneg, h.nodup, h.live, h.old⟩

theorem Consistent.call (h : Consistent s) (c : Call) : Consistent (s.call c) := by
  cases c with
  | createPerCpuThreads cpus func arg fails =>
      obtain ⟨d, hd⟩ := extends_createPerCpuThreads func arg fails cpus s
      exact Consistent.record (h.extend hd)
  | createThreads nthreads func arg fails =>
      obtain ⟨d, hd⟩ := extends_createThreads func arg fails nthreads s
      exact Consistent.record (h.extend hd)
  | joinThreads => exact h.joinThreads

theorem consistent_of_run {h : List (State × Call)} (run : machine.Run h s) : Consistent s := by
  apply run.invariant (I := fun _ s => Consistent s)
  · exact ⟨le_rfl, by simp [machine, State.entries], by simp [machine, State.entries],
      by simp [machine]⟩
  · intro h s c s' _ hs hstep
    cases hstep
    exact hs.call c

/-! ### Exactness -/

theorem exact_iff_of_consistent (h : Consistent s) :
    Exact s ↔ InTable s ∧ ∀ r ∈ s.returned, r.1 = r.2 := by
  constructor
  · intro he
    exact ⟨⟨he.nonneg, he.le_max, he.accessed⟩, he.returned⟩
  · rintro ⟨ht, hr⟩
    have hjoin := joined_joinThreads h.nonneg
    exact ⟨ht.nonneg, ht.le_max, ht.accessed, hr, h.nodup, h.live, hjoin.numThreads,
      s.entries.reverse, hjoin.joined, s.entries.reverse_perm⟩

theorem InTable.joinThreads (h : InTable s) : InTable (joinThreads s) := by
  have hjoin := joined_joinThreads h.nonneg
  refine ⟨by rw [hjoin.numThreads], by rw [hjoin.numThreads]; decide, ?_⟩
  intro i hi
  rcases hjoin.accessed i hi with hi | ⟨hnonneg, hlt⟩
  · exact h.accessed i hi
  · exact ⟨hnonneg, hlt.trans_le h.le_max⟩

/-- A creating call returns what it created exactly if it found the table empty. -/
theorem returned_record_iff {r : ℤ × State} (hret : r.1 = r.2.numThreads)
    (hext : Extends s r.2 d) (hr : ∀ r ∈ s.returned, r.1 = r.2) :
    (∀ r' ∈ (s.record r).returned, r'.1 = r'.2) ↔ s.numThreads = 0 := by
  have hcount : r.2.created - s.created = d := by
    rw [hext.created]
    omega
  simp only [State.record, List.forall_mem_cons, hext.returned, hcount, hret, hext.numThreads]
  constructor
  · rintro ⟨hd, -⟩
    omega
  · intro h0
    exact ⟨by omega, hr⟩

theorem inTable_record_iff {before : State} {r : ℤ × State} :
    InTable (before.record r) ↔ InTable r.2 :=
  ⟨fun h => ⟨h.nonneg, h.le_max, h.accessed⟩, fun h => ⟨h.nonneg, h.le_max, h.accessed⟩⟩

/-- The rounds fit into an empty table, unless the decrement of `nthreads` wraps. -/
theorem rounds_le_iff (nthreads : BitVec 32) :
    (rounds (if maxThreads < nthreads.toInt then BitVec.ofInt 32 maxThreads else nthreads) : ℤ) ≤
      maxThreads ↔ nthreads ≠ BitVec.intMin 32 := by
  have hmax : maxThreads = 1024 := rfl
  split_ifs with hbig
  · apply iff_of_true
    · decide
    · rintro rfl
      revert hbig
      decide
  · by_cases hmin : nthreads = BitVec.intMin 32
    · subst hmin
      exact iff_of_false (by decide) (by simp)
    · apply iff_of_true _ hmin
      have hne : nthreads.toInt ≠ -2 ^ 31 := by
        intro heq
        exact hmin (BitVec.eq_of_toInt_eq (heq.trans (by decide)))
      have hge : -2 ^ 31 ≤ nthreads.toInt := nthreads.le_toInt
      have hlt : nthreads.toInt < 2 ^ 31 := nthreads.toInt_lt
      have hone : (1 : BitVec 32).toInt = 1 := by decide
      have hsub : (nthreads - 1).toInt = nthreads.toInt - 1 := by
        rw [BitVec.toInt_sub, hone]
        apply Int.bmod_eq_of_le <;> omega
      rw [rounds, hsub]
      omega

/-- The condition on a call and the state it is made in. -/
def CallsEmpty (s : State) : Call → Prop
  | .createPerCpuThreads _ _ _ _ => s.numThreads = 0
  | .createThreads nthreads _ _ fails => s.numThreads = 0 ∧
      (nthreads = BitVec.intMin 32 → ∃ j : ℕ, (j : ℤ) < maxThreads ∧ fails j = true)
  | .joinThreads => True

theorem exact_call_iff (hs : Consistent s) (h : Exact s) (c : Call) :
    Exact (s.call c) ↔ CallsEmpty s c := by
  obtain ⟨ht, hr⟩ := (exact_iff_of_consistent hs).mp h
  rw [exact_iff_of_consistent (hs.call c)]
  cases c with
  | createPerCpuThreads cpus func arg fails =>
      obtain ⟨d, hd⟩ := extends_createPerCpuThreads func arg fails cpus s
      have htable : InTable (createPerCpuThreads func arg fails cpus s).2 := by
        apply ht.perCpuLoop
      rw [State.call, inTable_record_iff, and_iff_right htable]
      exact returned_record_iff (by simp only [createPerCpuThreads]) hd hr
  | createThreads nthreads func arg fails =>
      obtain ⟨d, hd⟩ := extends_createThreads func arg fails nthreads s
      rw [State.call, inTable_record_iff, and_comm, returned_record_iff rfl hd hr]
      apply and_congr_right
      intro h0
      have htable := inTable_createLoop_iff func arg fails
        (rounds (if maxThreads < nthreads.toInt then BitVec.ofInt 32 maxThreads else nthreads)) 0 ht
      simp only [h0, zero_add, rounds_le_iff] at htable
      exact htable.trans imp_iff_not_or.symm
  | joinThreads =>
      have hjoin := joined_joinThreads hs.nonneg
      apply iff_of_true _ trivial
      refine ⟨ht.joinThreads, ?_⟩
      intro r hm
      exact hr r (hjoin.returned ▸ hm)

/-- Along any run the table is exact in all states exactly if every creating call was made
with the table empty and no decrement of `nthreads` wrapped, unless a `pthread_create`
stopped that loop within the table. -/
theorem threads_exact_iff {h : List (State × Call)} (run : machine.Run h s) :
    (∀ t ∈ Shared.Machine.visited h s, Exact t) ↔ ∀ e ∈ h, CallsEmpty e.1 e.2 := by
  apply run.forall_visited_iff
  · rw [exact_iff_of_consistent (consistent_of_run .init)]
    exact ⟨⟨le_rfl, by decide, by simp [machine]⟩, by simp [machine]⟩
  · intro h s c s' run hs hstep
    cases hstep
    exact exact_call_iff (consistent_of_run run) hs c

/-- One thread for each of two CPUs, joined, and then three threads of which the last
fails. -/
def reuse : List Call :=
  [.createPerCpuThreads {0, 3} 1 2 fun _ => false, .joinThreads,
    .createThreads 3 1 2 fun k => decide (k = 2)]

theorem threads_exact_reuse : ∃ h s, machine.replay reuse = some (h, s) ∧
    s.returned = [(2, 2), (2, 2)] ∧ ∀ t ∈ Shared.Machine.visited h s, Exact t := by
  refine ⟨_, _, rfl, by decide +kernel, ?_⟩
  apply (threads_exact_iff (Shared.Machine.run_of_replay reuse rfl)).mpr
  simp only [List.forall_mem_cons, List.not_mem_nil, false_imp_iff, implies_true, and_true,
    CallsEmpty, true_and]
  exact ⟨⟨by decide +kernel, fun hmin => absurd hmin (by decide)⟩, rfl⟩

/-- A second `create_threads` call on a full table. -/
def overflow : List Call :=
  [.createThreads 1024 1 2 fun _ => false, .createThreads 1 1 2 fun _ => false]

theorem threads_exact_fails : ∃ h s, machine.replay overflow = some (h, s) ∧
    s.accessed.head? = some maxThreads ∧ s.returned.head? = some (1025, 1) ∧ ¬Exact s := by
  refine ⟨_, _, rfl, by decide +kernel, by decide +kernel, ?_⟩
  intro h
  have hlt := h.le_max
  revert hlt
  decide +kernel

end AutotestClient.ThreadTable
