import AutotestClient.Verification.Aiostress.Submission

/-! # The offsets of an aio-stress thread

What was submitted for an operation and what is built for it are, in this order, the first
records of its part of the file. -/

namespace AutotestClient.Aiostress.Worker

variable {c : Config} {s s' : State c} {l : Label c} {h : List (State c × Label c)}
  {o : Oper c}

/-! ## What was submitted -/

/-- The offsets of those of the units that belong to the operation. -/
def State.offsets (s : State c) (vs : List (Iou c)) (o : Oper c) : List ℕ :=
  (vs.filter fun v => decide (s.ofOper o v)).map fun v => (s.units v).offset

/-- The units that `io_submit` takes in a step. -/
def State.accepted (s : State c) : Label c → List (Iou c)
  | .submit ret => s.pc.batch.iocbs.take ret
  | _ => []

/-- The operation goes on with its next command. -/
def State.restarts (s : State c) (l : Label c) (o : Oper c) : Bool :=
  l = .restart && decide (o ∈ s.finished) && (restartOper c.stages (s.opers o)).isSome

/-- The offsets submitted for the current command of an operation, oldest first. -/
def issued (o : Oper c) : List (State c × Label c) → List ℕ
  | [] => []
  | (s, l) :: h => if s.restarts l o then [] else issued o h ++ s.offsets (s.accepted l) o

/-- The first `n` records of the part of the file. -/
def Config.records (c : Config) (o : Oper c) (n : ℕ) : List ℕ :=
  (List.range n).map fun i => c.start o + c.reclen * i

theorem Config.records_succ (c : Config) (o : Oper c) (n : ℕ) :
    c.records o (n + 1) = c.records o n ++ [c.start o + c.reclen * n] := by
  simp [Config.records, List.range_succ]

theorem length_offsets (s : State c) (vs : List (Iou c)) (o : Oper c) :
    (s.offsets vs o).length = s.made vs o := by
  rw [State.offsets, List.length_map, State.made, List.countP_eq_length_filter]

theorem offsets_append (s : State c) (vs ws : List (Iou c)) (o : Oper c) :
    s.offsets (vs ++ ws) o = s.offsets vs o ++ s.offsets ws o := by
  simp only [State.offsets, List.filter_append, List.map_append]

theorem offsets_congr {vs : List (Iou c)}
    (hoper : ∀ v ∈ vs, (s'.units v).oper = (s.units v).oper)
    (hoffset : ∀ v ∈ vs, (s'.units v).offset = (s.units v).offset) (o : Oper c) :
    s'.offsets vs o = s.offsets vs o := by
  have hfilter : vs.filter (fun v => decide (s'.ofOper o v)) =
      vs.filter fun v => decide (s.ofOper o v) := by
    refine List.filter_congr fun v hv => decide_eq_decide.mpr ?_
    rw [State.ofOper, State.ofOper, hoper v hv]
  rw [State.offsets, hfilter]
  exact List.map_congr_left fun v hv => hoffset v (List.mem_filter.mp hv).1

/-- The books of the offsets of one operation: `xs` were submitted and `iocbs` are built. -/
structure Cover (o : Oper c) (xs : List ℕ) (iocbs : List (Iou c)) (s : State c) : Prop where
  length : xs.length = (s.opers o).startedIos
  offsets : (s.opers o).rw.sequential = true →
    xs ++ s.offsets iocbs o = c.records o ((s.opers o).startedIos + s.made iocbs o)
  last : (s.opers o).rw.sequential = true →
    (s.opers o).lastOffset = c.start o + c.reclen * ((s.opers o).startedIos + s.made iocbs o)

/-- What the offsets depend on. -/
structure Same (o : Oper c) (s s' : State c) : Prop where
  rw : (s'.opers o).rw = (s.opers o).rw
  started : (s'.opers o).startedIos = (s.opers o).startedIos
  last : (s'.opers o).lastOffset = (s.opers o).lastOffset
  oper : ∀ v, (s'.units v).oper = (s.units v).oper
  offset : ∀ v, (s'.units v).offset = (s.units v).offset

theorem Same.refl (o : Oper c) (s : State c) : Same o s s :=
  ⟨rfl, rfl, rfl, fun _ => rfl, fun _ => rfl⟩

theorem Same.of_eq (hopers : s'.opers o = s.opers o) (hunits : s'.units = s.units) :
    Same o s s' := by
  refine ⟨?_, ?_, ?_, fun v => ?_, fun v => ?_⟩
  · rw [hopers]
  · rw [hopers]
  · rw [hopers]
  · rw [hunits]
  · rw [hunits]

theorem Same.trans {t : State c} (hst : Same o s s') (htu : Same o s' t) : Same o s t :=
  ⟨htu.rw.trans hst.rw, htu.started.trans hst.started, htu.last.trans hst.last,
    fun v => (htu.oper v).trans (hst.oper v), fun v => (htu.offset v).trans (hst.offset v)⟩

theorem Same.made (hsame : Same o s s') (vs : List (Iou c)) : s'.made vs o = s.made vs o := by
  refine List.countP_congr fun v _ => ?_
  rw [decide_eq_true_iff, decide_eq_true_iff, State.ofOper, State.ofOper, hsame.oper]

theorem Same.offsets (hsame : Same o s s') (vs : List (Iou c)) :
    s'.offsets vs o = s.offsets vs o :=
  offsets_congr (fun v _ => hsame.oper v) (fun v _ => hsame.offset v) o

theorem Cover.frame {xs : List ℕ} {iocbs : List (Iou c)} (hc : Cover o xs iocbs s)
    (hsame : Same o s s') : Cover o xs iocbs s' := by
  constructor
  · rw [hsame.started]
    exact hc.length
  · rw [hsame.rw, hsame.offsets, hsame.started, hsame.made]
    exact hc.offsets
  · rw [hsame.rw, hsame.last, hsame.started, hsame.made]
    exact hc.last

theorem issued_of_other (hsubmit : ∀ ret, l ≠ .submit ret) (hrestart : l ≠ .restart) :
    issued o ((s, l) :: h) = issued o h := by
  have haccepted : s.accepted l = [] := by
    cases l with
    | submit ret => exact absurd rfl (hsubmit ret)
    | _ => rfl
  simp [issued, State.restarts, hrestart, haccepted, State.offsets]

/-- What `build_iocb` does to the units and to the operation. -/
theorem buildIocb_spec (v : Iou c) (b : Oper c) (offset : ℕ) :
    ∃ at' next : ℕ,
      (s.buildIocb v b offset).units = Function.update s.units v ⟨true, some b, at'⟩ ∧
      (s.buildIocb v b offset).opers =
        Function.update s.opers b { s.opers b with lastOffset := next } ∧
      ((s.opers b).rw.sequential = true →
        at' = (s.opers b).lastOffset ∧ next = (s.opers b).lastOffset + c.reclen) := by
  by_cases hseq : (s.opers b).rw.sequential
  · exact ⟨(s.opers b).lastOffset, (s.opers b).lastOffset + c.reclen,
      by simp [State.buildIocb, State.setOper, hseq],
      by simp [State.buildIocb, State.setOper, hseq], fun _ => ⟨rfl, rfl⟩⟩
  · exact ⟨offset, offset, by simp [State.buildIocb, State.setOper, hseq],
      by simp [State.buildIocb, State.setOper, hseq], fun h => absurd h hseq⟩

/-- The offsets of what was built before stay. -/
theorem offsets_update {t : State c} {v : Iou c} {unit : IoUnit c} {iocbs : List (Iou c)}
    (hv : v ∉ iocbs) (hunits : t.units = Function.update s.units v unit) (o : Oper c) :
    t.offsets (iocbs ++ [v]) o =
      s.offsets iocbs o ++ if unit.oper = some o then [unit.offset] else [] := by
  have hne : ∀ w ∈ iocbs, w ≠ v := fun w hw h => hv (h ▸ hw)
  have hold : t.offsets iocbs o = s.offsets iocbs o := by
    refine offsets_congr (fun w hw => ?_) (fun w hw => ?_) o
    · rw [hunits, Function.update_of_ne (hne w hw)]
    · rw [hunits, Function.update_of_ne (hne w hw)]
  rw [offsets_append, hold]
  by_cases ho : unit.oper = some o
  · simp [State.offsets, State.ofOper, hunits, ho]
  · simp [State.offsets, State.ofOper, hunits, ho]

theorem made_update {t : State c} {v : Iou c} {unit : IoUnit c} {iocbs : List (Iou c)}
    (hv : v ∉ iocbs) (hunits : t.units = Function.update s.units v unit) (o : Oper c) :
    t.made (iocbs ++ [v]) o = s.made iocbs o + if unit.oper = some o then 1 else 0 := by
  rw [← length_offsets, offsets_update hv hunits, List.length_append, length_offsets]
  split <;> rfl

/-- One more record of the operation is built. -/
theorem Cover.build {xs : List ℕ} {iocbs : List (Iou c)} (hc : Cover o xs iocbs s)
    {t : State c} {v : Iou c} {at' next : ℕ} (hv : v ∉ iocbs)
    (hunits : t.units = Function.update s.units v ⟨true, some o, at'⟩)
    (hoper : t.opers o = { s.opers o with lastOffset := next })
    (hseq : (s.opers o).rw.sequential = true →
      at' = (s.opers o).lastOffset ∧ next = (s.opers o).lastOffset + c.reclen) :
    Cover o xs (iocbs ++ [v]) t := by
  have hoffsets : t.offsets (iocbs ++ [v]) o = s.offsets iocbs o ++ [at'] := by
    rw [offsets_update hv hunits, if_pos rfl]
  have hmade : t.made (iocbs ++ [v]) o = s.made iocbs o + 1 := by
    rw [made_update hv hunits, if_pos rfl]
  constructor
  · simpa only [hoper] using hc.length
  · intro hsequential
    simp only [hoper] at hsequential
    have hold := hc.offsets hsequential
    have hlast := hc.last hsequential
    simp only [hoper, hoffsets, hmade]
    rw [← List.append_assoc, hold, ← Nat.add_assoc, Config.records_succ, (hseq hsequential).1, hlast]
  · intro hsequential
    simp only [hoper] at hsequential
    have hlast := hc.last hsequential
    simp only [hoper, hmade]
    rw [(hseq hsequential).2, hlast, ← Nat.add_assoc (s.opers o).startedIos, Nat.mul_add_one,
      Nat.add_assoc]

/-- A record of another operation is built. -/
theorem Cover.build_other {xs : List ℕ} {iocbs : List (Iou c)} (hc : Cover o xs iocbs s)
    {t : State c} {v : Iou c} {unit : IoUnit c} (hv : v ∉ iocbs)
    (hunits : t.units = Function.update s.units v unit) (hne : unit.oper ≠ some o)
    (hoper : t.opers o = s.opers o) : Cover o xs (iocbs ++ [v]) t := by
  have hoffsets : t.offsets (iocbs ++ [v]) o = s.offsets iocbs o := by
    rw [offsets_update hv hunits, if_neg hne, List.append_nil]
  have hmade : t.made (iocbs ++ [v]) o = s.made iocbs o := by
    rw [made_update hv hunits, if_neg hne, Nat.add_zero]
  constructor
  · rw [hoper]
    exact hc.length
  · rw [hoper, hoffsets, hmade]
    exact hc.offsets
  · rw [hoper, hmade]
    exact hc.last

theorem Cover.buildIocb {xs : List ℕ} {iocbs : List (Iou c)} (hc : Cover o xs iocbs s)
    {v : Iou c} (hv : v ∉ iocbs) (b : Oper c) (offset : ℕ) :
    Cover o xs (iocbs ++ [v]) (s.buildIocb v b offset) := by
  obtain ⟨at', next, hunits, hopers, hseq⟩ := buildIocb_spec (s := s) v b offset
  by_cases hob : o = b
  · subst b
    exact hc.build hv hunits (by rw [hopers, Function.update_self]) hseq
  · refine hc.build_other hv hunits ?_ (by rw [hopers, Function.update_of_ne hob])
    simpa using Ne.symm hob

/-- `io_submit` takes the first of the built units. -/
theorem Cover.submit {xs : List ℕ} {vs rest : List (Iou c)} (hc : Cover o xs (vs ++ rest) s) :
    Cover o (xs ++ s.offsets vs o) rest (s.updateIouCounters vs) := by
  have hsum := updateIouCounters_made (s := s) vs rest o
  constructor
  · rw [List.length_append, hc.length, length_offsets]
    rfl
  · intro hsequential
    have hold := hc.offsets hsequential
    rw [offsets_append, ← List.append_assoc] at hold
    rw [hsum]
    exact hold
  · intro hsequential
    have hold := hc.last hsequential
    rw [hsum]
    exact hold

/-! ## The next command -/

theorem restart_opers_ne {b : Oper c} (hne : o ≠ b) : (s.restart b).opers o = s.opers o := by
  unfold State.restart
  split
  · simp only [Function.update_of_ne hne]
  · rfl

theorem restart_opers_congr (hopers : s'.opers o = s.opers o) :
    (s'.restart o).opers o = (s.restart o).opers o := by
  unfold State.restart
  rw [hopers]
  cases restartOper c.stages (s.opers o) with
  | none => exact hopers
  | some rw => simp only [Function.update_self]

theorem restart_units (b : Oper c) : (s.restart b).units = s.units := by
  unfold State.restart
  split <;> rfl

theorem restartAll_units (rest : List (Oper c)) (s : State c) :
    (rest.foldl State.restart s).units = s.units := by
  induction rest generalizing s with
  | nil => rfl
  | cons b rest ih => exact (ih (s.restart b)).trans (restart_units b)

theorem restartAll_opers_of_notMem {rest : List (Oper c)} (ho : o ∉ rest) (s : State c) :
    (rest.foldl State.restart s).opers o = s.opers o := by
  induction rest generalizing s with
  | nil => rfl
  | cons b rest ih =>
      rw [List.mem_cons, not_or] at ho
      exact (ih ho.2 (s.restart b)).trans (restart_opers_ne ho.1)

/-- The loop over the finished operations treats each by itself. -/
theorem restartAll_opers {rest : List (Oper c)} (hnodup : rest.Nodup) (ho : o ∈ rest)
    (s : State c) : (rest.foldl State.restart s).opers o = (s.restart o).opers o := by
  induction rest generalizing s with
  | nil => simp at ho
  | cons b rest ih =>
      rw [List.nodup_cons] at hnodup
      by_cases hob : o = b
      · subst b
        exact restartAll_opers_of_notMem hnodup.1 (s.restart o)
      · have hrest : o ∈ rest := by simpa [hob] using ho
        rw [List.foldl_cons, ih hnodup.2 hrest]
        exact restart_opers_congr (restart_opers_ne hob)

theorem Cover.restart (hc : Cover o (issued o h) [] s) (hnodup : s.finished.Nodup) :
    Cover o (issued o ((s, .restart) :: h)) [] (s.finished.foldl State.restart s) := by
  have hunits := restartAll_units s.finished s
  have hempty : s.offsets (s.accepted .restart) o = [] := rfl
  by_cases hrestarts : s.restarts .restart o = true
  · have hmem : o ∈ s.finished ∧ (restartOper c.stages (s.opers o)).isSome := by
      simpa [State.restarts] using hrestarts
    obtain ⟨rw, hrw⟩ := Option.isSome_iff_exists.mp hmem.2
    have hopers := restartAll_opers hnodup hmem.1 s
    have hissued : issued o ((s, .restart) :: h) = [] := if_pos hrestarts
    rw [hissued]
    constructor
    · simp [hopers, State.restart, hrw]
    · simp [hopers, State.restart, hrw, State.offsets, State.made, Config.records]
    · simp [hopers, State.restart, hrw, State.made]
  · have hissued : issued o ((s, .restart) :: h) = issued o h := by
      rw [issued, if_neg hrestarts, hempty, List.append_nil]
    have hopers : (s.finished.foldl State.restart s).opers o = s.opers o := by
      by_cases ho : o ∈ s.finished
      · have hnone : restartOper c.stages (s.opers o) = none := by
          simpa [State.restarts, ho] using hrestarts
        rw [restartAll_opers hnodup ho]
        simp only [State.restart, hnone]
      · exact restartAll_opers_of_notMem ho s
    rw [hissued]
    exact hc.frame (.of_eq hopers hunits)

/-! ## All runs -/

theorem Cover.other {iocbs : List (Iou c)} (hc : Cover o (issued o h) iocbs s)
    (hsame : Same o s s') {iocbs' : List (Iou c)} (hiocbs : iocbs' = iocbs)
    (hsubmit : ∀ ret, l ≠ .submit ret) (hrestart : l ≠ .restart) :
    Cover o (issued o ((s, l) :: h)) iocbs' s' := by
  rw [issued_of_other hsubmit hrestart, hiocbs]
  exact hc.frame hsame

end AutotestClient.Aiostress.Worker
