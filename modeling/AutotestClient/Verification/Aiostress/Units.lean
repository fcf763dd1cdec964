import AutotestClient.Verification.Aiostress.Worker
import Mathlib.Data.List.FinRange
import Mathlib.Data.Multiset.Filter

/-! # The I/O units of an aio-stress thread

Each unit is on the free list, among the `iocbs` of `run_active_list`, or in the kernel. -/

namespace AutotestClient.Aiostress.Worker

variable {c : Config} {s s' : State c} {l : Label c} {h : List (State c × Label c)}
  {iocbs : List (Iou c)} {flight : Multiset (Iou c)}

/-! ## The places of the units -/

/-- The batch of `run_active_list`, as long as it runs. -/
def Pc.batch : Pc c → Batch c
  | .scan _ batch | .build _ _ batch | .submit batch | .resubmit batch => batch
  | _ => ⟨[], []⟩

/-- Not at an error message. -/
def Pc.live : Pc c → Bool
  | .starved | .badUnit | .aborted | .failed => false
  | _ => true

/-- The units of an operation. -/
def State.ofOper (s : State c) (o : Oper c) (v : Iou c) : Prop := (s.units v).oper = some o

instance (s : State c) (o : Oper c) : DecidablePred (s.ofOper o) :=
  fun _ => inferInstanceAs (Decidable (_ = _))

/-- `iocbs` are built and `flight` is submitted and not finished. -/
structure Units (iocbs : List (Iou c)) (flight : Multiset (Iou c)) (s : State c) : Prop where
  once : ∀ v, s.free.count v + iocbs.count v + flight.count v = 1
  busy : ∀ v, (s.units v).busy = true ↔ v ∉ s.free
  pending : s.pending = flight.card
  numPending : ∀ o, (s.opers o).numPending = flight.countP (s.ofOper o)

/-- A step that moves no unit. -/
theorem Units.frame (hu : Units iocbs flight s) (hfree : s'.free = s.free)
    (hunits : s'.units = s.units) (hpending : s'.pending = s.pending)
    (hnum : ∀ o, (s'.opers o).numPending = (s.opers o).numPending) : Units iocbs flight s' := by
  have hof : ∀ o, s'.ofOper o = s.ofOper o := fun o => by
    funext v
    simp only [State.ofOper, hunits]
  constructor
  · simpa only [hfree] using hu.once
  · simpa only [hfree, hunits] using hu.busy
  · rw [hpending, hu.pending]
  · intro o
    rw [hnum o, hu.numPending o]
    exact Multiset.countP_congr rfl fun v _ => by rw [hof]

theorem Units.of_free {v : Iou c} {free : List (Iou c)} (hu : Units iocbs flight s)
    (hfree : s.free = v :: free) :
    v ∉ free ∧ v ∉ iocbs ∧ v ∉ flight := by
  have honce := hu.once v
  rw [hfree, List.count_cons_self] at honce
  refine ⟨?_, ?_, ?_⟩
  · intro hv
    have := List.count_pos_iff.mpr hv
    omega
  · intro hv
    have := List.count_pos_iff.mpr hv
    omega
  · intro hv
    have := Multiset.count_pos.mpr hv
    omega

/-- `build_iocb` takes a unit that is neither built nor in flight. -/
theorem Units.buildIocb {v : Iou c} {free : List (Iou c)} (hu : Units iocbs flight s)
    (hfree : s.free = v :: free) (o : Oper c) (offset : ℕ) (pc : Pc c) :
    Units (iocbs ++ [v]) flight { s.buildIocb v o offset with free := free, pc := pc } := by
  obtain ⟨hfresh, -, hflight⟩ := hu.of_free hfree
  have hunits : ∃ unit : IoUnit c, unit.busy = true ∧
      (s.buildIocb v o offset).units = Function.update s.units v unit := by
    unfold State.buildIocb
    simp only
    split
    · exact ⟨_, rfl, rfl⟩
    · exact ⟨_, rfl, rfl⟩
  have hopers : ∀ o', ((s.buildIocb v o offset).opers o').numPending =
      (s.opers o').numPending := by
    intro o'
    unfold State.buildIocb State.setOper
    simp only
    by_cases ho : o' = o
    · subst o'
      split <;> simp
    · split <;> simp [ho]
  have hpending : (s.buildIocb v o offset).pending = s.pending := by
    unfold State.buildIocb
    simp only
    split <;> rfl
  obtain ⟨unit, hbusy, hupdate⟩ := hunits
  constructor
  · intro w
    have honce := hu.once w
    rw [hfree, List.count_cons] at honce
    rw [List.count_append, List.count_singleton]
    simp only
    omega
  · intro w
    have hw := hu.busy w
    rw [hfree, List.mem_cons] at hw
    simp only [hupdate]
    by_cases hwv : w = v
    · subst w
      simpa [hbusy] using hfresh
    · simpa [hwv] using hw
  · simpa only [hpending] using hu.pending
  · intro o'
    refine (hopers o').trans ((hu.numPending o').trans ?_)
    refine Multiset.countP_congr rfl fun w hw => ?_
    have hwv : w ≠ v := fun h => hflight (h ▸ hw)
    simp only [State.ofOper, hupdate, Function.update_of_ne hwv]

/-- `finish_io` puts a unit from the flight onto the free list. -/
theorem Units.finishIo {e : Event c} (hu : Units iocbs (e.1 ::ₘ flight) s) :
    Units iocbs flight (s.finishIo e) := by
  have honce := hu.once e.1
  rw [Multiset.count_cons_self] at honce
  have hof : ∀ o, (s.finishIo e).ofOper o = s.ofOper o := by
    intro o
    funext v
    by_cases hv : v = e.1
    · simp [State.ofOper, State.finishIo, hv]
    · simp [State.ofOper, State.finishIo, hv]
  constructor
  · intro v
    have hv := hu.once v
    rw [Multiset.count_cons] at hv
    simp only [State.finishIo, List.count_cons, beq_iff_eq, eq_comm (a := e.1)]
    omega
  · intro v
    have hv := hu.busy v
    by_cases hve : v = e.1
    · simp [State.finishIo, hve]
    · simpa [State.finishIo, hve] using hv
  · have hpending := hu.pending
    rw [Multiset.card_cons] at hpending
    simp only [State.finishIo]
    omega
  · intro o
    have hnum := hu.numPending o
    rw [Multiset.countP_cons] at hnum
    have hsame : flight.countP ((s.finishIo e).ofOper o) = flight.countP (s.ofOper o) :=
      Multiset.countP_congr rfl fun v _ => by rw [hof o]
    rw [hsame]
    by_cases ho : s.ofOper o e.1
    · have ho' : (s.units e.1).oper = some o := ho
      simp only [ho, if_true] at hnum
      simp only [State.finishIo, ho', if_true]
      omega
    · have ho' : ¬ (s.units e.1).oper = some o := ho
      simp only [ho, if_false] at hnum
      simp only [State.finishIo, ho', if_false]
      omega

theorem Units.finishAll (events : List (Event c)) {s : State c}
    (hu : Units iocbs (↑(events.map Prod.fst) + flight) s) :
    Units iocbs flight (events.foldl State.finishIo s) := by
  induction events generalizing s with
  | nil => simpa using hu
  | cons e events ih =>
      apply ih
      apply Units.finishIo
      rwa [List.map_cons, ← Multiset.cons_coe, Multiset.cons_add] at hu

theorem Units.readEvents {minNr : ℕ} {events : List (Event c)} (hu : Units iocbs s.kernel s)
    (hreap : s.mayReap minNr events) :
    Units iocbs (s.readEvents events).kernel (s.readEvents events) := by
  have hkernel : ∀ (events : List (Event c)) (t : State c),
      (events.foldl State.finishIo t).kernel = t.kernel := by
    intro events
    induction events with
    | nil => exact fun _ => rfl
    | cons e events ih => exact fun t => (ih (t.finishIo e)).trans rfl
  unfold State.readEvents
  rw [hkernel]
  apply Units.finishAll
  simp only
  rw [Multiset.add_comm, Multiset.sub_add_cancel hreap.1]
  exact hu.frame rfl rfl rfl fun _ => rfl

/-- `io_submit` took the first of the built units. -/
theorem Units.updateIouCounters {vs rest : List (Iou c)} (hu : Units (vs ++ rest) s.kernel s) :
    Units rest (s.updateIouCounters vs).kernel (s.updateIouCounters vs) := by
  constructor
  · intro v
    have hv := hu.once v
    rw [List.count_append] at hv
    simp only [State.updateIouCounters, Multiset.count_add, Multiset.coe_count]
    omega
  · exact hu.busy
  · simp [State.updateIouCounters, hu.pending]
  · intro o
    change (s.opers o).numPending + vs.countP (fun v => decide (s.ofOper o v)) =
      (s.kernel + ↑vs).countP (s.ofOper o)
    rw [Multiset.countP_add, Multiset.coe_countP, hu.numPending o]

end AutotestClient.Aiostress.Worker
