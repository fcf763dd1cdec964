import AutotestClient.Verification.Aiostress.Units
import Mathlib.Data.Fintype.Card

/-! # The operations of an aio-stress thread

Each operation is active, built or finished, and never has more I/O in the making than it
still has to do. -/

namespace AutotestClient.Aiostress.Worker

variable {c : Config} {s s' : State c} {l : Label c} {h : List (State c × Label c)}
  {iocbs : List (Iou c)} {built : List (Oper c)}

/-! ## The lists of operations -/

/-- `built` are taken from the active operations and not yet put back. -/
def Lists (built : List (Oper c)) (s : State c) : Prop :=
  ∀ o, s.active.count o + built.count o + s.finished.count o = 1

theorem count_operListAdd (o o' : Oper c) (list : List (Oper c)) :
    (operListAdd o list).count o' = list.count o' + if o = o' then 1 else 0 := by
  simp only [operListAdd, List.count_append, List.count_singleton, beq_iff_eq]

theorem count_operListDel (o o' : Oper c) (list : List (Oper c)) :
    (operListDel o list).count o' = list.count o' - if o = o' then 1 else 0 := by
  simp only [operListDel, List.count_erase, beq_iff_eq]

/-- An operation of a list occurs in it. -/
theorem count_pos_of_eq {o o' : Oper c} {list : List (Oper c)} (ho : o ∈ list) (heq : o = o') :
    0 < list.count o' :=
  List.count_pos_iff.mpr (heq ▸ ho)

theorem Lists.cutOff (hl : Lists [] s) {o : Oper c} (ho : o ∈ s.active) (os : OperState)
    (cnt : ℕ) :
    Lists [] { s.setOper o os with
      active := operListDel o s.active
      finished := operListAdd o s.finished
      cnt := cnt } := by
  intro o'
  have honce := hl o'
  simp only [count_operListAdd, count_operListDel]
  split_ifs with heq
  · have hpos := count_pos_of_eq ho heq
    omega
  · exact honce

theorem Lists.build (hl : Lists built s) {o : Oper c} (ho : o ∈ s.active) (pc : Pc c) :
    Lists (operListAdd o built) { s with active := operListDel o s.active, pc := pc } := by
  intro o'
  have honce := hl o'
  simp only [count_operListAdd, count_operListDel]
  split_ifs with heq
  · have hpos := count_pos_of_eq ho heq
    omega
  · exact honce

theorem Lists.requeue {o : Oper c} (hl : Lists (o :: built) s) : Lists built (s.requeue o) := by
  intro o'
  have honce := hl o'
  simp only [List.count_cons, beq_iff_eq] at honce
  unfold State.requeue
  simp only
  split
  · simp only [count_operListAdd, count_operListDel]
    omega
  · simp only [count_operListAdd]
    omega

theorem Lists.restart (hl : Lists [] s) {o : Oper c} (ho : o ∈ s.finished) :
    Lists [] (s.restart o) := by
  intro o'
  have honce := hl o'
  unfold State.restart
  split
  · simp only [count_operListAdd, count_operListDel]
    split_ifs with heq
    · have hpos := count_pos_of_eq ho heq
      omega
    · exact honce
  · exact honce

/-- The built operations and one active one are different ones. -/
theorem Lists.length_lt (hl : Lists built s) {o : Oper c} (ho : o ∈ s.active) :
    built.length < c.numFiles := by
  have hnodup : (o :: built).Nodup := by
    rw [List.nodup_iff_count_le_one]
    intro o'
    have honce := hl o'
    rw [List.count_cons]
    by_cases hoo : o = o'
    · subst o'
      have hpos := List.count_pos_iff.mpr ho
      simp only [beq_self_eq_true, if_true]
      omega
    · have hne : (o == o') = false := beq_false_of_ne hoo
      simp only [hne, Bool.false_eq_true, if_false]
      omega
  have hle := hnodup.length_le_card
  rw [Fintype.card_fin] at hle
  exact hle

/-! ## The I/O of an operation -/

/-- The units that are built for an operation and not submitted. -/
def State.made (s : State c) (iocbs : List (Iou c)) (o : Oper c) : ℕ :=
  iocbs.countP fun v => decide (s.ofOper o v)

/-- No operation makes more I/O than it has to do. -/
structure Counts (iocbs : List (Iou c)) (s : State c) : Prop where
  bound : ∀ o, (s.opers o).startedIos + s.made iocbs o ≤ c.totalIos o
  fresh : ∀ o ∈ s.active, (s.opers o).startedIos < c.totalIos o

theorem Config.totalIos_pos (c : Config) (o : Oper c) : 0 < c.totalIos o := by
  have hroom := c.room o
  exact Nat.div_pos (by omega) c.reclen_pos

theorem buildCount_le (s : State c) (o : Oper c) : buildCount s o ≤ c.ioIter := by
  unfold buildCount
  split <;> omega

theorem buildCount_congr {o : Oper c}
    (ho : (s'.opers o).startedIos = (s.opers o).startedIos) : buildCount s' o = buildCount s o := by
  simp only [buildCount, ho]

theorem buildCount_pos {o : Oper c} (ho : (s.opers o).startedIos < c.totalIos o) :
    0 < buildCount s o := by
  have hpos := c.ioIter_pos
  unfold buildCount
  split <;> omega

theorem started_add_buildCount_le {o : Oper c}
    (ho : (s.opers o).startedIos ≤ c.totalIos o) :
    (s.opers o).startedIos + buildCount s o ≤ c.totalIos o := by
  unfold buildCount
  split <;> omega

/-- Which operation `build_oper` is at. -/
def Pc.current? : Pc c → Option (Oper c)
  | .scan o _ | .build o _ _ => some o
  | _ => none

/-- The active operations have nothing in the making. -/
def Idle (iocbs : List (Iou c)) (s : State c) : Prop := ∀ o ∈ s.active, s.made iocbs o = 0

/-- How far `run_active_list` is. -/
def Space (s : State c) : Prop :=
  match s.pc with
  | .scan _ b =>
      Idle b.iocbs s ∧ b.built.length ≤ b.iocbs.length ∧
      b.iocbs.length ≤ b.built.length * c.ioIter ∧ b.iocbs.length + c.ioIter ≤ c.maxIoSubmit
  | .build o left b =>
      (∀ o' ∈ s.active, o' ≠ o → s.made b.iocbs o' = 0) ∧
      s.made b.iocbs o + left = buildCount s o ∧
      b.built.length + buildCount s o ≤ b.iocbs.length + left ∧
      b.iocbs.length + left ≤ b.built.length * c.ioIter + buildCount s o ∧
      b.iocbs.length + left ≤ c.maxIoSubmit
  | .submit b | .resubmit b =>
      b.iocbs ≠ [] ∧ b.iocbs.length ≤ c.maxIoSubmit ∧ Idle b.iocbs s
  | .starved | .badUnit | .aborted | .failed => False
  | _ => True

/-- The invariant of a thread that has met no fatal error. -/
structure Good (s : State c) : Prop where
  units : Units s.pc.batch.iocbs s.kernel s
  lists : Lists s.pc.batch.built s
  counts : Counts s.pc.batch.iocbs s
  current : ∀ o, s.pc.current? = some o → o ∈ s.active
  space : Space s

theorem Good.live (hg : Good s) : s.pc.live = true := by
  have hspace := hg.space
  cases hpc : s.pc <;> simp_all [Space, Pc.live]

theorem good_init : Good (machine c).init := by
  constructor
  · constructor
    · intro v
      have hcount : (List.finRange (c.numFiles * c.depth)).count v = 1 :=
        List.count_eq_one_of_mem (List.nodup_finRange _) (List.mem_finRange v)
      simp [machine, Pc.batch, hcount]
    · simp [machine]
    · simp [machine]
    · exact fun o => (Multiset.countP_zero _).symm
  · intro o
    have hcount : (List.finRange c.numFiles).count o = 1 :=
      List.count_eq_one_of_mem (List.nodup_finRange _) (List.mem_finRange o)
    simp [machine, Pc.batch, hcount]
  · refine ⟨fun o => ?_, fun o _ => c.totalIos_pos o⟩
    simp [machine, Pc.batch, State.made]
  · simp [machine, Pc.current?]
  · exact trivial

theorem made_congr (hunits : s'.units = s.units) (iocbs : List (Iou c)) (o : Oper c) :
    s'.made iocbs o = s.made iocbs o := by
  refine List.countP_congr fun v _ => ?_
  rw [decide_eq_true_iff, decide_eq_true_iff, State.ofOper, State.ofOper, hunits]

/-- A step that only goes to another place of the program. -/
theorem Good.frame (hg : Good s) (hbatch : s'.pc.batch = s.pc.batch) (hfree : s'.free = s.free)
    (hunits : s'.units = s.units) (hpending : s'.pending = s.pending)
    (hkernel : s'.kernel = s.kernel) (hopers : s'.opers = s.opers)
    (hactive : s'.active = s.active) (hfinished : s'.finished = s.finished)
    (hcurrent : ∀ o, s'.pc.current? = some o → o ∈ s.active) (hspace : Space s') : Good s' := by
  constructor
  · rw [hbatch, hkernel]
    exact hg.units.frame hfree hunits hpending fun o => by rw [hopers]
  · rw [hbatch]
    intro o
    rw [hactive, hfinished]
    exact hg.lists o
  · refine ⟨fun o => ?_, fun o ho => ?_⟩
    · rw [hbatch, made_congr hunits, hopers]
      exact hg.counts.bound o
    · rw [hopers]
      exact hg.counts.fresh o (hactive ▸ ho)
  · rw [hactive]
    exact hcurrent
  · exact hspace

/-- Only the operations that `build_oper` works on have units in the making. -/
theorem Good.space_scan (hg : Good s) {o : Oper c} {b : Batch c} (hpc : s.pc = .scan o b) :
    Idle b.iocbs s ∧ b.built.length ≤ b.iocbs.length ∧
      b.iocbs.length ≤ b.built.length * c.ioIter ∧ b.iocbs.length + c.ioIter ≤ c.maxIoSubmit := by
  simpa only [Space, hpc] using hg.space

theorem Good.space_build (hg : Good s) {o : Oper c} {left : ℕ} {b : Batch c}
    (hpc : s.pc = .build o left b) :
    (∀ o' ∈ s.active, o' ≠ o → s.made b.iocbs o' = 0) ∧
      s.made b.iocbs o + left = buildCount s o ∧
      b.built.length + buildCount s o ≤ b.iocbs.length + left ∧
      b.iocbs.length + left ≤ b.built.length * c.ioIter + buildCount s o ∧
      b.iocbs.length + left ≤ c.maxIoSubmit := by
  simpa only [Space, hpc] using hg.space

theorem Good.space_submit (hg : Good s) {b : Batch c}
    (hpc : s.pc = .submit b ∨ s.pc = .resubmit b) :
    b.iocbs ≠ [] ∧ b.iocbs.length ≤ c.maxIoSubmit ∧ Idle b.iocbs s := by
  rcases hpc with hpc | hpc
  · simpa only [Space, hpc] using hg.space
  · simpa only [Space, hpc] using hg.space

/-- After the `while` of `run_active_list`, a batch without I/O has no operations. -/
theorem batch_runBuilt {b : Batch c} (hle : b.built.length ≤ b.iocbs.length) :
    (s.runBuilt b).pc.batch = b := by
  obtain ⟨iocbs, built⟩ := b
  unfold State.runBuilt
  by_cases hnil : iocbs = []
  · subst iocbs
    simp only [List.length_nil, Nat.le_zero, List.length_eq_zero_iff] at hle
    subst built
    simp [Pc.batch]
  · simp [hnil, Pc.batch]

theorem space_runBuilt {b : Batch c} (hmax : b.iocbs.length ≤ c.maxIoSubmit)
    (hidle : Idle b.iocbs s) : Space (s.runBuilt b) := by
  unfold State.runBuilt
  by_cases hnil : b.iocbs = []
  · simp [hnil, Space]
  · simp only [hnil, if_false, Space]
    exact ⟨hnil, hmax, hidle⟩

theorem current_runBuilt {b : Batch c} (o : Oper c) : (s.runBuilt b).pc.current? ≠ some o := by
  unfold State.runBuilt
  by_cases hnil : b.iocbs = []
  · simp [hnil, Pc.current?]
  · simp [hnil, Pc.current?]

theorem good_runBuilt (hg : Good s) {b : Batch c} (hbatch : s.pc.batch = b)
    (hle : b.built.length ≤ b.iocbs.length) (hmax : b.iocbs.length ≤ c.maxIoSubmit)
    (hidle : Idle b.iocbs s) : Good (s.runBuilt b) :=
  hg.frame ((batch_runBuilt hle).trans hbatch.symm) rfl rfl rfl rfl rfl rfl rfl
    (fun o ho => absurd ho (current_runBuilt o)) (space_runBuilt hmax hidle)

theorem good_cutOff (hg : Good s) {o : Oper c} {rest : List (Oper c)} (hpc : s.pc = .loop)
    (hactive : s.active = o :: rest) (cnt : ℕ) :
    Good { s.setOper o { s.opers o with stonewalled := true } with
      active := operListDel o s.active
      finished := operListAdd o s.finished
      cnt := cnt } := by
  have ho : o ∈ s.active := by simp [hactive]
  have hopers : ∀ o', (Function.update s.opers o { s.opers o with stonewalled := true }
      o').numPending = (s.opers o').numPending ∧
      (Function.update s.opers o { s.opers o with stonewalled := true } o').startedIos =
        (s.opers o').startedIos := by
    intro o'
    by_cases hoo : o' = o
    · subst o'
      simp
    · simp [hoo]
  constructor
  · exact hg.units.frame rfl rfl rfl fun o' => (hopers o').1
  · have hlists : Lists [] s := by simpa [hpc, Pc.batch] using hg.lists
    have hcut := hlists.cutOff ho { s.opers o with stonewalled := true } cnt
    simpa [hpc, Pc.batch, State.setOper] using hcut
  · refine ⟨fun o' => ?_, fun o' ho' => ?_⟩
    · refine (Nat.add_le_add_right (hopers o').2.le _).trans ?_
      exact hg.counts.bound o'
    · refine (hopers o').2.trans_lt ?_
      exact hg.counts.fresh o' (List.mem_of_mem_erase ho')
  · simp [State.setOper, hpc, Pc.current?]
  · simp [Space, State.setOper, hpc]

/-! ## Building -/

theorem good_runnable (hg : Good s) {o : Oper c} {b : Batch c} (hpc : s.pc = .scan o b) :
    Good { s with pc := .build o (buildCount s o) b } := by
  have ho : o ∈ s.active := hg.current o (by simp [hpc, Pc.current?])
  obtain ⟨hidle, hlow, hhigh, hmax⟩ := hg.space_scan hpc
  have hcount := buildCount_le s o
  refine hg.frame (by simp [hpc, Pc.batch]) rfl rfl rfl rfl rfl rfl rfl ?_ ?_
  · intro o' ho'
    obtain rfl : o = o' := by simpa [Pc.current?] using ho'
    exact ho
  · refine ⟨fun o' ho' _ => hidle o' ho', ?_, ?_, ?_, ?_⟩
    · exact (Nat.add_eq_right.mpr (hidle o ho)).trans rfl
    · exact Nat.add_le_add_right hlow _
    · exact Nat.add_le_add_right hhigh _
    · omega

/-- `build_iocb` leaves what is not about the unit and `last_offset`. -/
theorem buildIocb_started (v : Iou c) (o : Oper c) (offset : ℕ) (o' : Oper c) :
    ((s.buildIocb v o offset).opers o').startedIos = (s.opers o').startedIos := by
  unfold State.buildIocb State.setOper
  simp only
  by_cases ho : o' = o
  · subst o'
    split <;> simp
  · split <;> simp [ho]

theorem buildIocb_active (v : Iou c) (o : Oper c) (offset : ℕ) :
    (s.buildIocb v o offset).active = s.active := by
  unfold State.buildIocb
  simp only
  split <;> rfl

theorem buildIocb_finished (v : Iou c) (o : Oper c) (offset : ℕ) :
    (s.buildIocb v o offset).finished = s.finished := by
  unfold State.buildIocb
  simp only
  split <;> rfl

theorem buildIocb_kernel (v : Iou c) (o : Oper c) (offset : ℕ) :
    (s.buildIocb v o offset).kernel = s.kernel := by
  unfold State.buildIocb
  simp only
  split <;> rfl

theorem buildIocb_units (v : Iou c) (o : Oper c) (offset : ℕ) :
    ∃ at' : ℕ, (s.buildIocb v o offset).units = Function.update s.units v ⟨true, some o, at'⟩ := by
  unfold State.buildIocb
  simp only
  split
  · exact ⟨_, rfl⟩
  · exact ⟨_, rfl⟩

/-- One more unit in the making for the operation, none for the others. -/
theorem made_buildIocb {v : Iou c} (hv : v ∉ iocbs) (o : Oper c) (offset : ℕ) (o' : Oper c) :
    (s.buildIocb v o offset).made (iocbs ++ [v]) o' =
      s.made iocbs o' + if o = o' then 1 else 0 := by
  obtain ⟨at', hunits⟩ := buildIocb_units (s := s) v o offset
  unfold State.made
  rw [List.countP_append]
  congr 1
  · refine List.countP_congr fun w hw => ?_
    have hwv : w ≠ v := fun h => hv (h ▸ hw)
    rw [decide_eq_true_iff, decide_eq_true_iff, State.ofOper, State.ofOper, hunits,
      Function.update_of_ne hwv]
  · simp only [List.countP_singleton, State.ofOper, hunits, Function.update_self,
      Option.some.injEq, decide_eq_true_eq]

theorem Good.space_grab (hg : Good s) {o : Oper c} {left : ℕ} {b : Batch c} {v : Iou c}
    (hpc : s.pc = .build o (left + 1) b) (hactive : s'.active = s.active)
    (hstarted : ∀ o', (s'.opers o').startedIos = (s.opers o').startedIos)
    (hmade : ∀ o', s'.made (b.iocbs ++ [v]) o' = s.made b.iocbs o' + if o = o' then 1 else 0)
    (hpc' : s'.pc = .build o left { b with iocbs := b.iocbs ++ [v] }) : Space s' := by
  obtain ⟨hidle, hmine, hlow, hhigh, hmax⟩ := hg.space_build hpc
  simp only [Space, hpc', hactive, hmade, buildCount_congr (hstarted o), List.length_append,
    List.length_singleton, if_true]
  refine ⟨fun o' ho' hne => ?_, by omega, by omega, by omega, by omega⟩
  rw [hidle o' ho' hne, if_neg (Ne.symm hne)]

theorem good_grab (hg : Good s) {o : Oper c} {left : ℕ} {b : Batch c} {v : Iou c}
    {free : List (Iou c)} (hpc : s.pc = .build o (left + 1) b) (hfree : s.free = v :: free)
    (offset : ℕ) :
    Good { s.buildIocb v o offset with
      free := free
      pc := .build o left { b with iocbs := b.iocbs ++ [v] } } := by
  have hbatch : s.pc.batch = b := by simp [hpc, Pc.batch]
  have hunits : Units b.iocbs s.kernel s := hbatch ▸ hg.units
  have hv : v ∉ b.iocbs := (hunits.of_free hfree).2.1
  have ho : o ∈ s.active := hg.current o (by simp [hpc, Pc.current?])
  obtain ⟨hidle, hmade, hlow, hhigh, hmax⟩ := hg.space_build hpc
  have hfresh := hg.counts.fresh o ho
  have htotal := started_add_buildCount_le hfresh.le
  constructor
  · have hnew := hunits.buildIocb hfree o offset
      (.build o left { b with iocbs := b.iocbs ++ [v] })
    rw [← buildIocb_kernel v o offset] at hnew
    exact hnew
  · intro o'
    simp only [Pc.batch, buildIocb_active, buildIocb_finished]
    exact hbatch ▸ hg.lists o'
  · refine ⟨fun o' => ?_, fun o' ho' => ?_⟩
    · simp only [Pc.batch, buildIocb_started]
      have hbound := hg.counts.bound o'
      rw [hbatch] at hbound
      have hnew := made_buildIocb (s := s) hv o offset o'
      refine (Nat.add_le_add_left hnew.le _).trans ?_
      split_ifs with hoo
      · subst o'
        omega
      · exact hbound
    · simp only [buildIocb_active] at ho'
      simp only [buildIocb_started]
      exact hg.counts.fresh o' ho'
  · intro o' ho'
    obtain rfl : o = o' := by simpa [Pc.current?] using ho'
    simpa only [buildIocb_active] using ho
  · exact hg.space_grab hpc (v := v) (buildIocb_active v o offset)
      (buildIocb_started v o offset) (made_buildIocb hv o offset) rfl

/-- `build_oper` is done with an operation. -/
theorem good_built (hg : Good s) {o : Oper c} {b : Batch c} (hpc : s.pc = .build o 0 b)
    {pc : Pc c} (hbatch : pc.batch = { b with built := operListAdd o b.built })
    (hcurrent : ∀ o', pc.current? = some o' → o' ∈ operListDel o s.active)
    (hspace : Space { s with active := operListDel o s.active, pc := pc }) :
    Good { s with active := operListDel o s.active, pc := pc } := by
  have hold : s.pc.batch = b := by simp [hpc, Pc.batch]
  have ho : o ∈ s.active := hg.current o (by simp [hpc, Pc.current?])
  constructor
  · simp only [hbatch]
    exact (hold ▸ hg.units : Units b.iocbs s.kernel s).frame rfl rfl rfl fun _ => rfl
  · simp only [hbatch]
    exact (hold ▸ hg.lists : Lists b.built s).build ho pc
  · refine ⟨fun o' => ?_, fun o' ho' => ?_⟩
    · simp only [hbatch]
      have hbound := hg.counts.bound o'
      rwa [hold] at hbound
    · exact hg.counts.fresh o' (List.mem_of_mem_erase ho')
  · exact hcurrent
  · exact hspace

/-- `build_oper` is done with the last operation of a batch. -/
theorem good_builtLast (hg : Good s) {o : Oper c} {b : Batch c} (hpc : s.pc = .build o 0 b)
    (hlow : (operListAdd o b.built).length ≤ b.iocbs.length)
    (hidle : ∀ o' ∈ operListDel o s.active, s.made b.iocbs o' = 0)
    (hmax : b.iocbs.length ≤ c.maxIoSubmit) :
    Good ({ s with active := operListDel o s.active }.runBuilt
      { b with built := operListAdd o b.built }) := by
  have hbatch := batch_runBuilt (s := { s with active := operListDel o s.active })
    (b := { b with built := operListAdd o b.built }) hlow
  have hspace := space_runBuilt (s := { s with active := operListDel o s.active })
    (b := { b with built := operListAdd o b.built }) hmax hidle
  have hcurrent := current_runBuilt (s := { s with active := operListDel o s.active })
    (b := { b with built := operListAdd o b.built })
  exact good_built hg hpc hbatch (fun o' ho' => absurd ho' (hcurrent o')) hspace

/-! ## Completions -/

/-- What `finish_io` leaves alone. -/
structure Kept (s s' : State c) : Prop where
  active : s'.active = s.active
  finished : s'.finished = s.finished
  pc : s'.pc = s.pc
  started : ∀ o, (s'.opers o).startedIos = (s.opers o).startedIos
  oper : ∀ v, (s'.units v).oper = (s.units v).oper

theorem kept_readEvents (events : List (Event c)) (s : State c) : Kept s (s.readEvents events) := by
  have hall : ∀ (events : List (Event c)) (s : State c), Kept s (events.foldl State.finishIo s) := by
    intro events
    induction events with
    | nil => exact fun s => ⟨rfl, rfl, rfl, fun _ => rfl, fun _ => rfl⟩
    | cons e events ih =>
        intro s
        have hrest := ih (s.finishIo e)
        have hstarted : ∀ o, ((s.finishIo e).opers o).startedIos = (s.opers o).startedIos := by
          intro o
          simp only [State.finishIo]
          split <;> rfl
        have hoper : ∀ v, ((s.finishIo e).units v).oper = (s.units v).oper := by
          intro v
          by_cases hv : v = e.1
          · simp [State.finishIo, hv]
          · simp [State.finishIo, hv]
        exact ⟨hrest.active, hrest.finished, hrest.pc, fun o => (hrest.started o).trans (hstarted o),
          fun v => (hrest.oper v).trans (hoper v)⟩
  have hread := hall events { s with kernel := s.kernel - ↑(events.map Prod.fst) }
  exact ⟨hread.active, hread.finished, hread.pc, hread.started, hread.oper⟩

theorem Kept.made (hk : Kept s s') (iocbs : List (Iou c)) (o : Oper c) :
    s'.made iocbs o = s.made iocbs o := by
  refine List.countP_congr fun v _ => ?_
  rw [decide_eq_true_iff, decide_eq_true_iff, State.ofOper, State.ofOper, hk.oper]

theorem Kept.space (hk : Kept s s') (hs : Space s) : Space s' := by
  have hcount : ∀ o, buildCount s' o = buildCount s o := fun o => buildCount_congr (hk.started o)
  simpa only [Space, Idle, hk.pc, hk.active, hk.made, hcount] using hs

theorem good_readEvents (hg : Good s) {minNr : ℕ} {events : List (Event c)}
    (hreap : s.mayReap minNr events) : Good (s.readEvents events) := by
  have hk := kept_readEvents events s
  constructor
  · rw [hk.pc]
    exact hg.units.readEvents hreap
  · intro o
    rw [hk.pc, hk.active, hk.finished]
    exact hg.lists o
  · refine ⟨fun o => ?_, fun o ho => ?_⟩
    · rw [hk.pc, hk.started, hk.made]
      exact hg.counts.bound o
    · rw [hk.started]
      exact hg.counts.fresh o (hk.active ▸ ho)
  · rw [hk.pc, hk.active]
    exact hg.current
  · exact hk.space hg.space

/-! ## Submissions -/

theorem updateIouCounters_made (vs rest : List (Iou c)) (o : Oper c) :
    ((s.updateIouCounters vs).opers o).startedIos + (s.updateIouCounters vs).made rest o =
      (s.opers o).startedIos + s.made (vs ++ rest) o := by
  have happend : s.made (vs ++ rest) o = s.made vs o + s.made rest o := List.countP_append
  rw [happend, ← Nat.add_assoc]
  rfl

theorem counts_updateIouCounters {vs rest : List (Iou c)} (hc : Counts (vs ++ rest) s)
    (hidle : Idle (vs ++ rest) s) : Counts rest (s.updateIouCounters vs) := by
  refine ⟨fun o => ?_, fun o ho => ?_⟩
  · rw [updateIouCounters_made]
    exact hc.bound o
  · have hnone := hidle o ho
    have hsum := updateIouCounters_made (s := s) vs rest o
    have hfresh := hc.fresh o ho
    rw [hnone] at hsum
    omega

theorem Idle.of_append {vs rest : List (Iou c)} (hidle : Idle (vs ++ rest) s) :
    Idle rest (s.updateIouCounters vs) := by
  intro o ho
  have hnone : s.made (vs ++ rest) o = 0 := hidle o ho
  have happend : s.made (vs ++ rest) o = s.made vs o + s.made rest o := List.countP_append
  have hsame : (s.updateIouCounters vs).made rest o = s.made rest o := rfl
  omega

theorem good_submitSome (hg : Good s) {b : Batch c} (hpc : s.pc = .submit b) {ret : ℕ}
    (hret : ret < b.iocbs.length) :
    Good { s.updateIouCounters (b.iocbs.take ret) with
      pc := .resubmit { b with iocbs := b.iocbs.drop ret } } := by
  have hbatch : s.pc.batch = b := by simp [hpc, Pc.batch]
  obtain ⟨hne, hmax, hidle⟩ := hg.space_submit (.inl hpc)
  have hsplit : b.iocbs.take ret ++ b.iocbs.drop ret = b.iocbs := List.take_append_drop _ _
  have hunits : Units b.iocbs s.kernel s := hbatch ▸ hg.units
  have hcounts : Counts b.iocbs s := hbatch ▸ hg.counts
  rw [← hsplit] at hunits hcounts hidle
  constructor
  · exact hunits.updateIouCounters.frame rfl rfl rfl fun _ => rfl
  · exact (hbatch ▸ hg.lists : Lists b.built s)
  · have hnew := counts_updateIouCounters hcounts hidle
    exact ⟨hnew.bound, hnew.fresh⟩
  · simp [Pc.current?]
  · refine ⟨?_, ?_, Idle.of_append hidle⟩
    · simpa using hret
    · exact (List.drop_sublist _ _).length_le.trans hmax

/-- A state in which no batch is in the making; `built` are still to be put back. -/
structure Ready (built : List (Oper c)) (s : State c) : Prop where
  units : Units [] s.kernel s
  lists : Lists built s
  counts : Counts [] s

theorem Ready.good (hr : Ready [] s) {pc : Pc c} (cnt : ℕ) (hbatch : pc.batch = ⟨[], []⟩)
    (hcurrent : pc.current? = none) (hspace : Space { s with pc := pc, cnt := cnt }) :
    Good { s with pc := pc, cnt := cnt } := by
  constructor
  · simp only [hbatch]
    exact hr.units.frame rfl rfl rfl fun _ => rfl
  · simp only [hbatch]
    exact hr.lists
  · simp only [hbatch]
    exact ⟨hr.counts.bound, hr.counts.fresh⟩
  · simp [hcurrent]
  · exact hspace

theorem Ready.requeue {o : Oper c} (hr : Ready (o :: built) s) : Ready built (s.requeue o) := by
  have honce := hr.lists o
  rw [List.count_cons_self] at honce
  have hnot : o ∉ s.active := by
    intro ho
    have hpos := List.count_pos_iff.mpr ho
    omega
  have hsame : (s.requeue o).opers = s.opers ∧ (s.requeue o).units = s.units ∧
      (s.requeue o).free = s.free ∧ (s.requeue o).pending = s.pending ∧
      (s.requeue o).kernel = s.kernel := by
    unfold State.requeue
    simp only
    split <;> exact ⟨rfl, rfl, rfl, rfl, rfl⟩
  obtain ⟨hopers, hunits, hfree, hpending, hkernel⟩ := hsame
  constructor
  · rw [hkernel]
    exact hr.units.frame hfree hunits hpending fun _ => by rw [hopers]
  · exact hr.lists.requeue
  · refine ⟨fun o' => ?_, fun o' ho' => ?_⟩
    · rw [hopers, made_congr hunits]
      exact hr.counts.bound o'
    · rw [hopers]
      have hbound := hr.counts.bound o
      by_cases hdone : (s.opers o).startedIos = c.totalIos o
      · have hactive : (s.requeue o).active = s.active := by
          simp [State.requeue, hdone, operListDel, operListAdd, List.erase_append_right _ hnot]
        exact hr.counts.fresh o' (hactive ▸ ho')
      · have hactive : (s.requeue o).active = s.active ++ [o] := by
          simp [State.requeue, hdone, operListAdd]
        rw [hactive, List.mem_append, List.mem_singleton] at ho'
        rcases ho' with ho' | rfl
        · exact hr.counts.fresh o' ho'
        · omega

theorem Ready.requeueAll {built : List (Oper c)} {s : State c} (hr : Ready built s) :
    Ready [] (built.foldl State.requeue s) := by
  induction built generalizing s with
  | nil => exact hr
  | cons o built ih => exact ih hr.requeue

theorem good_submitAll (hg : Good s) {b : Batch c} (hpc : s.pc = .submit b) :
    Good { b.built.foldl State.requeue (s.updateIouCounters b.iocbs) with pc := .loop } := by
  have hbatch : s.pc.batch = b := by simp [hpc, Pc.batch]
  obtain ⟨hne, hmax, hidle⟩ := hg.space_submit (.inl hpc)
  have hunits : Units b.iocbs s.kernel s := hbatch ▸ hg.units
  have hcounts : Counts b.iocbs s := hbatch ▸ hg.counts
  rw [← List.append_nil b.iocbs] at hunits hcounts hidle
  have hready : Ready b.built (s.updateIouCounters b.iocbs) :=
    ⟨hunits.updateIouCounters, (hbatch ▸ hg.lists : Lists b.built s),
      counts_updateIouCounters hcounts hidle⟩
  exact hready.requeueAll.good _ rfl rfl trivial

/-! ## The next stage -/

theorem Ready.restart {o : Oper c} (hr : Ready [] s) (ho : o ∈ s.finished) :
    Ready [] (s.restart o) := by
  refine ⟨?_, hr.lists.restart ho, ?_⟩
  · unfold State.restart
    split
    · refine hr.units.frame rfl rfl rfl fun o' => ?_
      by_cases hoo : o' = o
      · subst o'
        simp
      · simp [hoo]
    · exact hr.units
  · unfold State.restart
    split
    · refine ⟨fun o' => ?_, fun o' ho' => ?_⟩
      · by_cases hoo : o' = o
        · subst o'
          simp [State.made]
        · simpa [hoo, State.made] using hr.counts.bound o'
      · by_cases hoo : o' = o
        · subst o'
          simpa using c.totalIos_pos o
        · have hmem : o' ∈ s.active := by simpa [operListAdd, hoo] using ho'
          simpa [hoo] using hr.counts.fresh o' hmem
    · exact hr.counts

theorem finished_restart {o o' : Oper c} (hne : o' ≠ o) (ho' : o' ∈ s.finished) :
    o' ∈ (s.restart o).finished := by
  unfold State.restart
  split
  · exact (List.mem_erase_of_ne hne).mpr ho'
  · exact ho'

theorem Ready.restartAll {rest : List (Oper c)} {s : State c} (hr : Ready [] s)
    (hnodup : rest.Nodup) (hrest : ∀ o ∈ rest, o ∈ s.finished) :
    Ready [] (rest.foldl State.restart s) := by
  induction rest generalizing s with
  | nil => exact hr
  | cons o rest ih =>
      rw [List.nodup_cons] at hnodup
      refine ih (hr.restart (hrest o (by simp))) hnodup.2 fun o' ho' => ?_
      have hne : o' ≠ o := fun h => hnodup.1 (h ▸ ho')
      exact finished_restart hne (hrest o' (by simp [ho']))

theorem Lists.nodup_finished (hl : Lists built s) : s.finished.Nodup := by
  rw [List.nodup_iff_count_le_one]
  intro o
  have honce := hl o
  omega

theorem Good.ready (hg : Good s) (hbatch : s.pc.batch = ⟨[], []⟩) : Ready [] s := by
  refine ⟨?_, ?_, ?_⟩
  · simpa only [hbatch] using hg.units
  · simpa only [hbatch] using hg.lists
  · simpa only [hbatch] using hg.counts

theorem good_restart (hg : Good s) (hpc : s.pc = .drained) {pc : Pc c} (cnt : ℕ)
    (hend : pc = .loop ∨ pc = .ended) :
    Good { s.finished.foldl State.restart s with pc := pc, cnt := cnt } := by
  have hready := hg.ready (by simp [hpc, Pc.batch])
  have hall := hready.restartAll hready.lists.nodup_finished fun _ ho => ho
  rcases hend with rfl | rfl
  · exact hall.good cnt rfl rfl trivial
  · exact hall.good cnt rfl rfl trivial

/-! ## All runs -/

/-- A unit is free while fewer than all are built: so there is one in flight to wait for. -/
theorem Good.not_starved (hg : Good s) {o : Oper c} {left : ℕ} {b : Batch c}
    (hpc : s.pc = .build o (left + 1) b) (hfree : s.free = []) : ¬ s.mayReap s.minNr [] := by
  intro hreap
  have hpos := c.ioIter_pos
  have hpending : s.pending = 0 := by
    have hmin := hreap.2
    simp only [State.minNr, List.length_nil] at hmin
    split at hmin <;> omega
  have hbatch : s.pc.batch = b := by simp [hpc, Pc.batch]
  have hunits : Units b.iocbs s.kernel s := hbatch ▸ hg.units
  have hkernel : s.kernel = 0 := by
    rw [← Multiset.card_eq_zero, ← hunits.pending, hpending]
  -- all units are in the batch, but a batch is not as large as that
  have hone : ∀ v, b.iocbs.count v = 1 := by
    intro v
    have honce := hunits.once v
    simpa [hfree, hkernel] using honce
  have hlength : c.numFiles * c.depth ≤ b.iocbs.length := by
    have hsub : List.finRange (c.numFiles * c.depth) ⊆ b.iocbs :=
      fun v _ => List.count_pos_iff.mp ((hone v).symm ▸ Nat.one_pos)
    have hle := ((List.nodup_finRange _).subperm hsub).length_le
    rwa [List.length_finRange] at hle
  have ho : o ∈ s.active := hg.current o (by simp [hpc, Pc.current?])
  have hlists : Lists b.built s := hbatch ▸ hg.lists
  have hbuilt := hlists.length_lt ho
  obtain ⟨-, -, -, hhigh, -⟩ := hg.space_build hpc
  have hcount := buildCount_le s o
  have hmul : (b.built.length + 1) * c.ioIter ≤ c.numFiles * c.depth :=
    Nat.mul_le_mul hbuilt c.ioIter_le_depth
  rw [Nat.succ_mul] at hmul
  omega

theorem good_afterBuild (hg : Good s) {o : Oper c} {b : Batch c} (hpc : s.pc = .build o 0 b) :
    (∀ o' ∈ operListDel o s.active, s.made b.iocbs o' = 0) ∧
      (operListAdd o b.built).length ≤ b.iocbs.length ∧
      b.iocbs.length ≤ (operListAdd o b.built).length * c.ioIter ∧
      b.iocbs.length ≤ c.maxIoSubmit := by
  have ho : o ∈ s.active := hg.current o (by simp [hpc, Pc.current?])
  obtain ⟨hidle, hmade, hlow, hhigh, hmax⟩ := hg.space_build hpc
  have hpos := buildCount_pos (hg.counts.fresh o ho)
  have hcount := buildCount_le s o
  refine ⟨fun o' ho' => ?_, ?_, ?_, by omega⟩
  · have hne : o' ≠ o := by
      rintro rfl
      have honce := hg.lists o'
      have hdel := count_operListDel o' o' s.active
      have hmem := List.count_pos_iff.mpr ho'
      rw [if_pos rfl] at hdel
      omega
    exact hidle o' (List.mem_of_mem_erase ho') hne
  · simp only [operListAdd, List.length_append, List.length_singleton]
    omega
  · simp only [operListAdd, List.length_append, List.length_singleton, Nat.succ_mul]
    omega

/-- The program has ended with an error message of `io_submit`, or all is well. -/
def Inv (s : State c) : Prop := s.pc = .aborted ∨ s.pc = .failed ∨ Good s

theorem good_step (hg : Good s) (hs : Step s l s') : Inv s' := by
  cases hs with
  | allSent hpc hend =>
      exact .inr (.inr (hg.frame (by simp [hpc, Pc.batch]) rfl rfl rfl rfl rfl rfl rfl
        (by simp [Pc.current?]) trivial))
  | cutOff hpc hactive hwall => exact .inr (.inr (good_cutOff hg hpc hactive _))
  | @runActive ending o rest hpc hactive =>
      refine .inr (.inr (hg.frame (by simp [hpc, Pc.batch]) rfl rfl rfl rfl rfl rfl rfl ?_ ?_))
      · intro o' ho'
        obtain rfl : o = o' := by simpa [Pc.current?] using ho'
        simp [hactive]
      · refine ⟨fun o' _ => rfl, le_rfl, Nat.zero_le _, ?_⟩
        simpa using c.ioIter_le_max
  | runnable hpc => exact .inr (.inr (good_runnable hg hpc))
  | allScanned hpc hlast =>
      obtain ⟨hidle, hlow, -, hmax⟩ := hg.space_scan hpc
      exact .inr (.inr (good_runBuilt hg (by simp [hpc, Pc.batch]) hlow (by omega) hidle))
  | @skip large o next b hpc hnext =>
      refine .inr (.inr (hg.frame (by simp [hpc, Pc.batch]) rfl rfl rfl rfl rfl rfl rfl ?_ ?_))
      · intro o' ho'
        obtain rfl : next = o' := by simpa [Pc.current?] using ho'
        exact List.mem_of_getElem? hnext
      · exact hg.space_scan hpc
  | @badUnit offset left o b v free hpc hfree hbusy =>
      have hnot := (hg.units.busy v).mp hbusy
      simp [hfree] at hnot
  | grab hpc hfree hbusy => exact .inr (.inr (good_grab hg hpc hfree _))
  | @builtLast o b hpc =>
      obtain ⟨hidle, hlow, -, hmax⟩ := good_afterBuild hg hpc
      exact .inr (.inr (good_builtLast hg hpc hlow hidle hmax))
  | @built o next b rest hpc hactive hroom =>
      obtain ⟨hidle, hlow, hhigh, hmax⟩ := good_afterBuild hg hpc
      refine .inr (.inr (good_built hg hpc rfl (fun o' ho' => ?_) ?_))
      · obtain rfl : next = o' := by simpa [Pc.current?] using ho'
        simp [hactive]
      · exact ⟨hidle, hlow, hhigh, hroom⟩
  | starved hpc hfree hreap => exact absurd hreap (hg.not_starved hpc hfree)
  | reapBuild hpc hreap => exact .inr (.inr (good_readEvents hg hreap))
  | aborted hpc hreap => exact .inl rfl
  | @reapSubmit b events hpc hreap =>
      have hread := good_readEvents hg hreap
      have hpc' := (kept_readEvents events s).pc
      rw [hpc] at hpc'
      refine .inr (.inr (hread.frame ?_ rfl rfl rfl rfl rfl rfl rfl ?_ ?_))
      · simp [hpc', Pc.batch]
      · simp [Pc.current?]
      · exact hread.space_submit (.inr hpc')
  | reapWait hpc hreap => exact .inr (.inr (good_readEvents hg hreap))
  | submitSome hpc hpos hret => exact .inr (.inr (good_submitSome hg hpc hret))
  | submitAll hpc hret => exact .inr (.inr (good_submitAll hg hpc))
  | again hpc =>
      exact .inr (.inr (hg.frame (by simp [hpc, Pc.batch]) rfl rfl rfl rfl rfl rfl rfl
        (by simp [Pc.current?]) (hg.space_submit (.inl hpc))))
  | submitFails hpc => exact .inr (.inl rfl)
  | allWaited hpc =>
      exact .inr (.inr (hg.frame (by simp [hpc, Pc.batch]) rfl rfl rfl rfl rfl rfl rfl
        (by simp [Pc.current?]) trivial))
  | waited hpc hdone =>
      exact .inr (.inr (hg.frame (by simp [hpc, Pc.batch]) rfl rfl rfl rfl rfl rfl rfl
        (by simp [Pc.current?]) trivial))
  | restart hpc hactive => exact .inr (.inr (good_restart hg hpc 0 (.inl rfl)))
  | stop hpc => exact .inr (.inr (good_restart hg hpc _ (.inr rfl)))

theorem inv_step (hi : Inv s) (hs : Step s l s') : Inv s' := by
  rcases hi with hpc | hpc | hg
  · cases hs <;> simp_all
  · cases hs <;> simp_all
  · exact good_step hg hs

theorem inv_run (run : (machine c).Run h s) : Inv s :=
  run.invariant (I := fun _ s => Inv s) (.inr (.inr good_init))
    fun _ _ _ _ _ hi hs => inv_step hi (.of_step hs)

end AutotestClient.Aiostress.Worker
