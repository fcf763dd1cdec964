import AutotestClient.Verification.Aiostress.Coverage

/-! # The commands of an aio-stress thread

An operation does its first command and then those of the selected stages that come after
it, each over its whole part of the file. -/

namespace AutotestClient.Aiostress.Worker

variable {c : Config} {s s' : State c} {l : Label c} {h : List (State c × Label c)}
  {o : Oper c}

/-! ## The order of the commands -/

/-- The selected commands after a given one. -/
def later (stages : Rw → Bool) : Rw → List Rw
  | .write => [.read, .rwrite, .rread].filter stages
  | .read => [.rwrite, .rread].filter stages
  | .rwrite => [.rread].filter stages
  | .rread => []

/-- The commands of each operation. -/
def Config.plan (c : Config) : List Rw := c.rw :: later c.stages c.rw

/-- The commands an operation is done with, each with its offsets, oldest first. -/
def past (o : Oper c) : List (State c × Label c) → List (Rw × List ℕ)
  | [] => []
  | (s, l) :: h =>
      if s.restarts l o then past o h ++ [((s.opers o).rw, issued o h)] else past o h

/-- All commands of an operation so far, the current one included. -/
def commands (o : Oper c) (h : List (State c × Label c)) (s : State c) : List (Rw × List ℕ) :=
  past o h ++ [((s.opers o).rw, issued o h)]

theorem finishAll_opers (events : List (Event c)) (s : State c) (o : Oper c) :
    ∃ n ≤ (s.opers o).numPending, ∃ err num, (events.foldl State.finishIo s).opers o =
      { s.opers o with numPending := n, lastErr := err, numErr := num } := by
  induction events generalizing s with
  | nil => exact ⟨_, le_rfl, _, _, rfl⟩
  | cons e events ih =>
      obtain ⟨n, hn, err, num, hall⟩ := ih (s.finishIo e)
      have hone : ∃ m ≤ (s.opers o).numPending, ∃ err num, (s.finishIo e).opers o =
          { s.opers o with numPending := m, lastErr := err, numErr := num } := by
        by_cases ho : (s.units e.1).oper = some o
        · exact ⟨(s.opers o).numPending - 1, Nat.sub_le _ _, _, _, if_pos ho⟩
        · exact ⟨(s.opers o).numPending, le_rfl, (s.opers o).lastErr, (s.opers o).numErr, if_neg ho⟩
      obtain ⟨m, hm, err', num', hone⟩ := hone
      refine ⟨n, ?_, err, num, ?_⟩
      · rw [hone] at hn
        exact hn.trans hm
      · rw [List.foldl_cons, hall, hone]

theorem readEvents_opers (events : List (Event c)) (s : State c) (o : Oper c) :
    ∃ n ≤ (s.opers o).numPending, ∃ err num, (s.readEvents events).opers o =
      { s.opers o with numPending := n, lastErr := err, numErr := num } :=
  finishAll_opers events { s with kernel := s.kernel - ↑(events.map Prod.fst) } o

/-- A finished operation did all its I/O, or was cut off. -/
def Finished (s : State c) : Prop :=
  ∀ o ∈ s.finished, (s.opers o).startedIos = c.totalIos o ∨ (s.opers o).stonewalled = true

/-- A step that finishes nothing and submits nothing. -/
theorem Finished.frame (hf : Finished s) (hfinished : s'.finished = s.finished)
    (hopers : ∀ o, (s'.opers o).startedIos = (s.opers o).startedIos ∧
      (s'.opers o).stonewalled = (s.opers o).stonewalled) : Finished s' := by
  intro o ho
  rw [(hopers o).1, (hopers o).2]
  exact hf o (hfinished ▸ ho)

theorem Finished.submit (hf : Finished s) {vs rest : List (Iou c)} (hc : Counts (vs ++ rest) s) :
    Finished (s.updateIouCounters vs) := by
  intro o ho
  rcases hf o ho with hall | hcut
  · left
    have hbound := hc.bound o
    have hsum := updateIouCounters_made (s := s) vs rest o
    have hmore : (s.opers o).startedIos ≤ ((s.updateIouCounters vs).opers o).startedIos :=
      Nat.le_add_right _ _
    omega
  · exact .inr hcut

theorem Finished.requeue (hf : Finished s) (o : Oper c) : Finished (s.requeue o) := by
  unfold State.requeue
  simp only
  split
  · rename_i hdone
    intro o' ho'
    simp only [operListAdd, List.mem_append, List.mem_singleton] at ho'
    rcases ho' with ho' | rfl
    · exact hf o' ho'
    · exact .inl hdone
  · exact hf

theorem Finished.requeueAll {built : List (Oper c)} {s : State c} (hf : Finished s) :
    Finished (built.foldl State.requeue s) := by
  induction built generalizing s with
  | nil => exact hf
  | cons o built ih => exact ih (hf.requeue o)

/-- A restart takes operations out of the finished ones and leaves the others alone. -/
theorem mem_finished_restartAll {rest : List (Oper c)} {s : State c} (hnodup : s.finished.Nodup)
    (ho : o ∈ (rest.foldl State.restart s).finished) :
    o ∈ s.finished ∧ (rest.foldl State.restart s).opers o = s.opers o := by
  induction rest generalizing s with
  | nil => exact ⟨ho, rfl⟩
  | cons b rest ih =>
      rw [List.foldl_cons] at ho ⊢
      have hnodup' : (s.restart b).finished.Nodup := by
        unfold State.restart
        split
        · exact hnodup.erase b
        · exact hnodup
      obtain ⟨hmem, hopers⟩ := ih hnodup' ho
      rw [hopers]
      by_cases hob : o = b
      · subst b
        unfold State.restart at hmem ⊢
        split
        · rename_i rw hnext
          simp only [hnext, operListDel] at hmem
          exact absurd hmem hnodup.not_mem_erase
        · rename_i hnext
          simp only [hnext] at hmem
          exact ⟨hmem, rfl⟩
      · refine ⟨?_, restart_opers_ne hob⟩
        unfold State.restart at hmem
        split at hmem
        · exact List.mem_of_mem_erase hmem
        · exact hmem

theorem Finished.restart (hf : Finished s) (hnodup : s.finished.Nodup) :
    Finished (s.finished.foldl State.restart s) := by
  intro o ho
  obtain ⟨hmem, hopers⟩ := mem_finished_restartAll hnodup ho
  rw [hopers]
  exact hf o hmem

theorem finished_step (hg : Good s) (hf : Finished s) (hs : Step s l s') : Finished s' := by
  cases hs with
  | @cutOff b rest hpc hactive hwall =>
      intro o ho
      simp only [operListAdd, List.mem_append, List.mem_singleton] at ho
      by_cases hob : o = b
      · subst b
        exact .inr (by simp [State.setOper])
      · simpa [State.setOper, hob] using hf o (by simpa [hob] using ho)
  | @grab offset left b batch v free hpc hfree hbusy =>
      obtain ⟨at', next, -, hopers, -⟩ := buildIocb_spec (s := s) v b offset
      refine hf.frame (buildIocb_finished v b offset) fun o => ?_
      by_cases hob : o = b
      · subst b
        simp [hopers]
      · simp [hopers, hob]
  | @reapBuild left b batch events hpc hreap =>
      refine hf.frame (kept_readEvents events s).finished fun o => ?_
      obtain ⟨n, -, err, num, hopers⟩ := readEvents_opers events s o
      simp [hopers]
  | @reapSubmit batch events hpc hreap =>
      refine hf.frame (kept_readEvents events s).finished fun o => ?_
      obtain ⟨n, -, err, num, hopers⟩ := readEvents_opers events s o
      simp [hopers]
  | @reapWait b rest events hpc hreap =>
      refine hf.frame (kept_readEvents events s).finished fun o => ?_
      obtain ⟨n, -, err, num, hopers⟩ := readEvents_opers events s o
      simp [hopers]
  | @submitSome ret batch hpc hpos hret =>
      have hcounts : Counts batch.iocbs s := by
        have hall := hg.counts
        rwa [hpc] at hall
      rw [← List.take_append_drop ret batch.iocbs] at hcounts
      exact hf.submit hcounts
  | @submitAll ret batch hpc hret =>
      have hcounts : Counts batch.iocbs s := by
        have hall := hg.counts
        rwa [hpc] at hall
      rw [← List.append_nil batch.iocbs] at hcounts
      exact (hf.submit hcounts).requeueAll
  | restart hpc hactive =>
      exact hf.restart (hg.ready (by simp [hpc, Pc.batch])).lists.nodup_finished
  | stop hpc hend =>
      exact hf.restart (hg.ready (by simp [hpc, Pc.batch])).lists.nodup_finished
  | _ => exact hf

/-! ## The end of a stage -/

/-- The finished operations are waited for, those of `rest` not yet. -/
def Waited (rest : List (Oper c)) (s : State c) : Prop :=
  (s.active = [] ∨ s.more = false) ∧ ∀ o ∈ s.finished, o ∈ rest ∨ (s.opers o).numPending = 0

/-- How far `worker` is with waiting. -/
def Settled (s : State c) : Prop :=
  match s.pc with
  | .wait rest => Waited rest s
  | .drained => Waited [] s
  | .ended => c.iterations = none →
      ∀ o, o ∈ s.finished ∧ restartOper c.stages (s.opers o) = none ∧ (s.opers o).numPending = 0
  | _ => True

theorem foldl_restart_active_ne_nil {rest : List (Oper c)} {s : State c} (hactive : s.active ≠ []) :
    (rest.foldl State.restart s).active ≠ [] := by
  induction rest generalizing s with
  | nil => exact hactive
  | cons o rest ih =>
      apply ih
      unfold State.restart
      split
      · simp [operListAdd]
      · exact hactive

/-- When no operation is active after the loop over the finished ones, none was restarted. -/
theorem restartAll_of_active_nil {rest : List (Oper c)} {s : State c}
    (hnil : (rest.foldl State.restart s).active = []) :
    rest.foldl State.restart s = s ∧ ∀ o ∈ rest, restartOper c.stages (s.opers o) = none := by
  induction rest generalizing s with
  | nil => exact ⟨rfl, by simp⟩
  | cons b rest ih =>
      have hb : restartOper c.stages (s.opers b) = none := by
        by_contra hsome
        obtain ⟨rw, hrw⟩ := Option.ne_none_iff_exists'.mp hsome
        have hactive : (s.restart b).active ≠ [] := by
          simp [State.restart, hrw, operListAdd]
        exact foldl_restart_active_ne_nil hactive hnil
      have hsame : s.restart b = s := by simp [State.restart, hb]
      rw [List.foldl_cons, hsame] at hnil ⊢
      obtain ⟨hrest, hall⟩ := ih hnil
      refine ⟨hrest, ?_⟩
      simpa [hb] using hall

theorem more_of_forever (hforever : c.iterations = none) (s : State c) : s.more = true := by
  simp [State.more, hforever]

theorem settled_step (hg : Good s) (hw : Settled s) (hs : Step s l s') : Settled s' := by
  cases hs with
  | allSent hpc hend => exact ⟨hend, fun o ho => .inl ho⟩
  | @reapWait b rest events hpc hreap =>
      have hk := kept_readEvents events s
      simp only [Settled, hpc] at hw
      have hmore : (s.readEvents events).more = s.more := by
        have hcnt : ∀ (events : List (Event c)) (t : State c),
            (events.foldl State.finishIo t).cnt = t.cnt := by
          intro events
          induction events with
          | nil => exact fun _ => rfl
          | cons e events ih => exact fun t => ih (t.finishIo e)
        simp only [State.more, State.readEvents, hcnt]
      simp only [Settled, hk.pc, hpc]
      refine ⟨?_, fun o ho => ?_⟩
      · rw [hk.active, hmore]
        exact hw.1
      · rw [hk.finished] at ho
        rcases hw.2 o ho with hrest | hnone
        · exact .inl hrest
        · obtain ⟨n, hn, err, num, hopers⟩ := readEvents_opers events s o
          right
          rw [hopers]
          exact Nat.le_zero.mp (hnone ▸ hn)
  | allWaited hpc =>
      simp only [Settled, hpc] at hw
      exact hw
  | @waited b rest hpc hdone =>
      simp only [Settled, hpc] at hw
      refine ⟨hw.1, fun o ho => ?_⟩
      rcases hw.2 o ho with hrest | hnone
      · rcases List.mem_cons.mp hrest with rfl | hrest
        · exact .inr hdone
        · exact .inl hrest
      · exact .inr hnone
  | stop hpc hend =>
      intro hforever o
      simp only [Settled, hpc] at hw
      have hnil : (s.finished.foldl State.restart s).active = [] := by
        rcases hend with hnil | hmore
        · exact hnil
        · simp [more_of_forever hforever] at hmore
      obtain ⟨hsame, hall⟩ := restartAll_of_active_nil hnil
      have hactive : s.active = [] := by rwa [hsame] at hnil
      have honce := (hg.ready (by simp [hpc, Pc.batch])).lists o
      have ho : o ∈ s.finished := by
        simp only [hactive, List.count_nil] at honce
        exact List.count_pos_iff.mp (by omega)
      simp only [hsame]
      refine ⟨ho, hall o ho, ?_⟩
      simpa using hw.2 o ho
  | @allScanned large b batch hpc hlast =>
      rcases runBuilt_pc (s := s) batch with hend | hend
      · simp [Settled, hend]
      · simp [Settled, hend]
  | @builtLast b batch hpc =>
      rcases runBuilt_pc (s := { s with active := operListDel b s.active })
        { batch with built := operListAdd b batch.built } with hend | hend
      · simp [Settled, hend]
      · simp [Settled, hend]
  | @reapBuild left b batch events hpc hreap =>
      simp [Settled, (kept_readEvents events s).pc, hpc]
  | cutOff hpc hactive hwall => simp [Settled, State.setOper, hpc]
  | _ => trivial

/-! ## All runs -/

/-- What holds of the operations as long as no error message was printed. -/
def Stage (s : State c) : Prop := s.pc.live = true → Finished s ∧ Settled s

theorem stage_run (run : (machine c).Run h s) : Stage s := by
  refine run.invariant (I := fun _ s => Stage s) (fun _ => ⟨?_, trivial⟩)
    fun h s l s' run hf hs => ?_
  · intro o ho
    simp [machine] at ho
  · have hstep := Step.of_step hs
    intro hlive
    rcases inv_run run with hpc | hpc | hg
    · cases hstep <;> simp_all
    · cases hstep <;> simp_all
    · obtain ⟨hfinished, hsettled⟩ := hf hg.live
      exact ⟨finished_step hg hfinished hstep, settled_step hg hsettled hstep⟩

end AutotestClient.Aiostress.Worker
