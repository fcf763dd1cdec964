import AutotestClient.Model.WbKupdate
import AutotestClient.Shared.Except

/-! # The files of a run

The loop ends before the last file is written, and what it removes after a file is the sparse file
below the file system. -/

namespace AutotestClient.WbKupdate

open Shared

variable {fuel rounds counter n : ℕ} {waits : ℕ → Wait} {cfg : Config} {d : Disk}
  {st r : Disk × ResultMap}

/-- The run writes the files `1 .. n` and measures each of them, the sparse file is there until it is
removed with the device, and previous files are removed if that is asked for. -/
structure Exercises (cfg : Config) (n : ℕ) (r : Disk × ResultMap) : Prop where
  written : ∀ name, name ∈ r.1.writes.map Write.fileName ↔
    ∃ k, 1 ≤ k ∧ k ≤ n ∧ name = fileName cfg k
  measured : ∀ k, k ∈ r.2 ↔ 1 ≤ k ∧ k ≤ n
  sparseFile : ∀ w ∈ r.1.writes, w.sparseFile
  removable : ∃ d, resetDevice r.1 = .ok d
  previous : cfg.removePrevious → ∀ w ∈ r.1.writes, w.files.length ≤ 1

/-- What the loop has done when it comes to the file `counter`. -/
structure Progress (cfg : Config) (counter : ℕ) (st : Disk × ResultMap) : Prop where
  mountPoint : st.1.mountPoint
  written : st.1.writes.map Write.fileName = (List.range' 1 (counter - 1)).map (fileName cfg)
  measured : ∀ k, k ∈ st.2 ↔ 1 ≤ k ∧ k < counter
  sparseFile : st.1.sparseFile = !(cfg.removePrevious && decide (1 < counter))

/-! ## One iteration -/

theorem iteration_disk (hrun : iteration fuel waits cfg counter st = .ok r) :
    r.1 = { writeData cfg counter st.1 with sparseFile := !cfg.removePrevious } ∧
      ∃ v, r.2 = st.2.insert counter v := by
  obtain ⟨timeTaken, hwait, hrun⟩ := bind_eq_ok hrun
  obtain ⟨d, hremove, hrun⟩ := bind_eq_ok hrun
  obtain rfl := Except.ok.inj hrun
  refine ⟨?_, _, rfl⟩
  have hsparse : (writeData cfg counter st.1).sparseFile = true := by
    rw [awaitFlush] at hwait
    split_ifs at hwait with hsparse
    exact hsparse
  rw [removeInstance, removeSparseFile] at hremove
  cases hprevious : cfg.removePrevious with
  | false =>
      rw [hprevious] at hremove
      rw [← Except.ok.inj hremove, Bool.not_false, ← hsparse]
  | true =>
      rw [hprevious, if_pos rfl, if_pos hsparse] at hremove
      exact (Except.ok.inj hremove).symm

theorem Progress.iteration (h : Progress cfg counter st) (hcounter : 1 ≤ counter)
    (hrun : iteration fuel waits cfg counter st = .ok r) : Progress cfg (counter + 1) r := by
  obtain ⟨hdisk, v, hmap⟩ := iteration_disk hrun
  obtain ⟨m, rfl⟩ : ∃ m, counter = m + 1 := Nat.exists_eq_succ_of_ne_zero (by omega)
  constructor
  · rw [hdisk]
    exact h.mountPoint
  · rw [hdisk]
    simp [writeData, h.written, List.range'_concat, Nat.add_comm]
  · intro k
    rw [hmap, AList.mem_insert, h.measured]
    omega
  · rw [hdisk]
    simp

theorem Progress.iterations (h : Progress cfg counter st) (hcounter : 1 ≤ counter)
    (hle : (counter : ℤ) ≤ cfg.fileCount)
    (hrun : iterations fuel waits cfg rounds counter st = .ok r) :
    Progress cfg cfg.fileCount.toNat r := by
  induction rounds generalizing counter st with
  | zero =>
      rw [WbKupdate.iterations] at hrun
      split_ifs at hrun with hlt
      obtain rfl := Except.ok.inj hrun
      obtain rfl : cfg.fileCount.toNat = counter := by omega
      exact h
  | succ rounds ih =>
      rw [WbKupdate.iterations] at hrun
      split_ifs at hrun with hlt
      · obtain ⟨st', hstep, hrun⟩ := bind_eq_ok hrun
        exact ih (h.iteration hcounter hstep) (by omega) (by omega) hrun
      · obtain rfl := Except.ok.inj hrun
        obtain rfl : cfg.fileCount.toNat = counter := by omega
        exact h

/-! ## The run -/

theorem checkParameters_ok {d' : Disk} (h : checkParameters cfg d = .ok d') :
    d' = { d with mountPoint := true } ∧ 0 < cfg.fileCount := by
  obtain ⟨d₁, hmount, h⟩ := bind_eq_ok h
  have hd₁ : { d₁ with mountPoint := true } = { d with mountPoint := true } := by
    rw [checkMountPoint] at hmount
    split_ifs at hmount
    · rw [← Except.ok.inj hmount]
    · rw [← Except.ok.inj hmount]
  split_ifs at h with hsize hcount
  exact ⟨(Except.ok.inj h).symm.trans hd₁, hcount⟩

/-- A run that ends has written one file less than it was asked for. -/
theorem runOnce_progress (hwrites : d.writes = []) (hrun : runOnce fuel waits cfg d = .ok r) :
    Progress cfg cfg.fileCount.toNat r := by
  obtain ⟨d', hcheck, hrun⟩ := bind_eq_ok hrun
  obtain ⟨rfl, hcount⟩ := checkParameters_ok hcheck
  have hinit : Progress cfg 1 (createPartition { d with mountPoint := true }, ∅) := by
    refine ⟨rfl, by simp [createPartition, hwrites], fun k => ?_, by simp [createPartition]⟩
    simp
    omega
  exact hinit.iterations le_rfl (by omega) hrun

/-- With `remove_previous`, the sparse file is gone after the first file, and the device cannot be
removed in the end. -/
theorem resetDevice_of_progress (h : Progress cfg n r) :
    (∃ d, resetDevice r.1 = .ok d) ↔ (cfg.removePrevious && decide (1 < n)) = false := by
  have hsparse := h.sparseFile
  have hmount := h.mountPoint
  rw [resetDevice, removeSparseFile]
  cases hfile : r.1.sparseFile with
  | true =>
      rw [hfile] at hsparse
      refine iff_of_true ?_ ((Bool.not_eq_true' _).mp hsparse.symm)
      simp [bind, Except.bind, hmount]
  | false =>
      rw [hfile, eq_comm, Bool.not_eq_false'] at hsparse
      refine iff_of_false ?_ (by simp [hsparse])
      simp [bind, Except.bind]

/-- No run exercises the files it was asked for. -/
theorem runOnce_not_exercises (fuel : ℕ) (waits : ℕ → Wait) (cfg : Config) (d : Disk) (n : ℕ)
    (hn : 1 ≤ n) (hcount : cfg.fileCount = n) (hwrites : d.writes = [])
    (r : Disk × ResultMap) (hrun : runOnce fuel waits cfg d = .ok r) : ¬Exercises cfg n r := by
  intro h
  have hprogress := runOnce_progress hwrites hrun
  rw [hcount, Int.toNat_natCast] at hprogress
  have hlast := (hprogress.measured n).mp ((h.measured n).mpr ⟨hn, le_rfl⟩)
  exact absurd hlast.2 (lt_irrefl n)

/-- The control file, with as many files as given. -/
def control (fileCount : ℕ) : Config :=
  ⟨"/export/wb_kupdate".toList, fileCount, 1, 1, false, false⟩

/-- The file grows at the second poll of each wait, five seconds after the write. -/
def flushing (_ : ℕ) : Wait := ⟨0, 10, fun i => if i = 0 then 10 else 11, fun i => 5000000 * i⟩

def emptyDisk : Disk := ⟨false, false, false, [], []⟩

theorem runOnce_not_exercises_five :
    ∃ r, runOnce 5 flushing (control 5) emptyDisk = .ok r ∧ ¬Exercises (control 5) 5 r := by
  cases hrun : runOnce 5 flushing (control 5) emptyDisk with
  | error e =>
      have hok : (runOnce 5 flushing (control 5) emptyDisk).toOption.isSome := by decide +kernel
      rw [hrun] at hok
      cases hok
  | ok r =>
      exact ⟨r, rfl, runOnce_not_exercises 5 flushing (control 5) emptyDisk 5 (by decide) rfl rfl r
        hrun⟩

/-- One file is asked for, and none is written. -/
theorem runOnce_one_writes_none :
    ∃ r, runOnce 5 flushing (control 1) emptyDisk = .ok r ∧ ¬Exercises (control 1) 1 r := by
  refine ⟨_, rfl, fun h => ?_⟩
  have hmeasured := (h.measured 1).mpr ⟨le_rfl, le_rfl⟩
  exact absurd hmeasured (AList.notMem_empty 1)

end AutotestClient.WbKupdate
