import AutotestClient.Verification.Hackbench.Semantics
import AutotestClient.Shared.Threads

/-! # The start barrier of `hackbench`

Every worker tells `main` that it is ready before `main` wakes any of them. -/

namespace AutotestClient.Hackbench

open Shared

variable {c : Config} {s s' : State c} {l : Label c} {h : List (State c × Label c)}

/-! ## Who has been created -/

/-- How many workers `main` has created, as long as it is there. -/
def MainPc.created? (c : Config) : MainPc → Option ℕ
  | .creating k => some k
  | .reading _ | .reaping _ => some c.totalChildren
  | .exited _ => none

/-- The workers are created in the order of `pth_tab`. -/
def Births (s : State c) : Prop :=
  ∀ k, s.main.created? c = some k → ∀ w, s.phase w = .unborn ↔ k ≤ number w

theorem Births.enter (hb : Births s) {w : Worker c} {ph : Phase} (hw : s.phase w ≠ .unborn)
    (hph : ph ≠ .unborn) : Births (s.enter w ph) := by
  intro k hk v
  by_cases hv : v = w
  · subst v
    have hborn := hb k hk w
    simp only [enter_phase_self, hph, false_iff]
    exact fun hle => hw (hborn.mpr hle)
  · rw [enter_phase_of_ne hv]
    exact hb k hk v

theorem births_create {w : Worker c} (hb : Births s) (hmain : s.main = .creating (number w)) :
    Births { s.enter w .ready with main := .creating (number w + 1) } := by
  intro k hk v
  obtain rfl : number w + 1 = k := by simpa [MainPc.created?] using hk
  have hborn := hb (number w) (by simp [hmain, MainPc.created?]) v
  by_cases hv : v = w
  · subst v
    simp
  · have hne : number v ≠ number w := fun h => hv (number_injective h)
    change (s.enter w .ready).phase v = .unborn ↔ _
    rw [enter_phase_of_ne hv, hborn]
    omega

/-- `main` moves on among the states after the creation. -/
theorem Births.main (hb : Births s) {pc : MainPc}
    (hpc : ∀ k, pc.created? c = some k → s.main.created? c = some k) :
    Births { s with main := pc } :=
  fun k hk => hb k (hpc k hk)

theorem births_step (hb : Births s) (hs : Step s l s') : Births s' := by
  cases hs with
  | create hmain => exact births_create hb hmain
  | forkFails => exact hb.main (by simp [MainPc.created?])
  | @created k hmain hk =>
      intro n hn w
      obtain rfl : c.totalChildren = n := by simpa [MainPc.created?] using hn
      have hborn := hb k (by simp [hmain, MainPc.created?]) w
      have hlt := number_lt w
      rw [hborn]
      omega
  | ready hrun hph hroom => exact hb.enter (by simp [hph]) (by simp)
  | readReady hmain => exact hb.main (by simp [hmain, MainPc.created?])
  | wake hmain => exact hb.main (by simp [hmain, MainPc.created?])
  | poll hrun hph hwake => exact hb.enter (by simp [hph]) (by simp)
  | write hwrites => exact hb
  | sigpipe hwrites => exact hb.enter (by simp [hwrites.2.1]) (by simp)
  | read hreads => exact hb
  | readEof hreads => exact hb
  | exit hrun hph hover => exact hb.enter (by simp [hph]) (by simp)
  | reap hmain hi hph hnext =>
      exact (hb.enter (by simp [hph]) (by simp)).main (by simp [hmain, MainPc.created?])
  | reapKilled hmain hi hph =>
      exact (hb.enter (by simp [hph]) (by simp)).main (by simp [MainPc.created?])
  | report => exact hb.main (by simp [MainPc.created?])

theorem births_run (run : (machine c).Run h s) : Births s :=
  run.invariant (I := fun _ s => Births s)
    (fun k hk w => by simp [machine] at hk ⊢; simp [MainPc.created?] at hk; omega)
    fun _ _ _ _ _ hb hs => births_step hb (.of_step hs)

/-! ## The gate -/

/-- The label transfers bytes of a message. -/
def Label.moves : Label c → Bool
  | .write _ _ _ | .read _ _ _ => true
  | _ => false

/-- The ready bytes that `main` has read. -/
def readyRead (h : List (State c × Label c)) : ℕ := h.countP fun e => decide (e.2 = .readReady)

theorem readyRead_readReady : readyRead ((s, .readReady) :: h) = readyRead h + 1 := by
  simp [readyRead]

theorem readyRead_of_ne (hl : l ≠ .readReady) : readyRead ((s, l) :: h) = readyRead h := by
  simp [readyRead, hl]

/-- The loop counter of `main` before it writes the wake byte. -/
def MainPc.taken? : MainPc → Option ℕ
  | .creating _ => some 0
  | .reading i => some i
  | _ => none

/-- Not past `poll`. -/
def Phase.asleep : Phase → Bool
  | .unborn | .ready | .polling => true
  | _ => false

/-- Ready bytes are conserved, and everyone sleeps until `main` has read them all. -/
structure Gate (h : List (State c × Label c)) (s : State c) : Prop where
  announced : s.readyBytes + readyRead h = count Phase.announced s.phase
  taken : ∀ i, s.main.taken? = some i → readyRead h = i ∧ s.wakeBytes = 0
  failed : (∃ e ∈ h, e.2 = .forkFails) → s.wakeBytes = 0 ∧ ∃ status, s.main = .exited status
  asleep : s.wakeBytes = 0 → ∀ w, (s.phase w).asleep
  awake : 0 < s.wakeBytes → c.totalChildren ≤ readyRead h

theorem gate_init : Gate [] (machine c).init := by
  constructor
  · have hcount : count Phase.announced (machine c).init.phase = 0 := total_eq_zero fun _ => rfl
    rw [hcount]
    rfl
  · intro i hi
    cases hi
    exact ⟨rfl, rfl⟩
  · simp
  · exact fun _ _ => rfl
  · exact fun hw => absurd hw (Nat.lt_irrefl 0)

/-- A step of a worker that neither announces it nor wakes it early. -/
theorem Gate.frame (hg : Gate h s) (hl : l ≠ .readReady) (hfork : l ≠ .forkFails)
    (hready : s'.readyBytes = s.readyBytes) (hwake : s'.wakeBytes = s.wakeBytes)
    (hcount : count Phase.announced s'.phase = count Phase.announced s.phase)
    (htaken : ∀ i, s'.main.taken? = some i → s.main.taken? = some i)
    (hmain : ∀ status, s.main = .exited status → s'.main = .exited status)
    (hasleep : s.wakeBytes = 0 → ∀ w, (s'.phase w).asleep) : Gate ((s, l) :: h) s' := by
  constructor
  · rw [hready, hcount, readyRead_of_ne hl, hg.announced]
  · intro i hi
    rw [hwake, readyRead_of_ne hl]
    exact hg.taken i (htaken i hi)
  · intro he
    have he' : ∃ e ∈ h, e.2 = .forkFails := by
      simpa [hfork] using he
    obtain ⟨hw, status, hst⟩ := hg.failed he'
    exact ⟨hwake.trans hw, status, hmain status hst⟩
  · rw [hwake]
    exact hasleep
  · rw [hwake, readyRead_of_ne hl]
    exact hg.awake

/-- A worker that has announced itself is still announced where it goes. -/
theorem count_enter {w : Worker c} {ph : Phase} (hph : ph.announced = (s.phase w).announced) :
    count Phase.announced (s.enter w ph).phase = count Phase.announced s.phase :=
  count_update_of_eq hph

theorem asleep_enter {w : Worker c} {ph : Phase} (hs : ∀ v, (s.phase v).asleep)
    (hph : ph.asleep = true) (v : Worker c) : ((s.enter w ph).phase v).asleep :=
  enter_forall (P := fun _ ph => ph.asleep = true) (fun v _ => hs v) hph v

/-- Who runs has been woken. -/
theorem Gate.wake_of_running (hg : Gate h s) {w : Worker c} (hw : (s.phase w).asleep = false) :
    s.wakeBytes ≠ 0 := by
  intro h0
  simp [hg.asleep h0 w] at hw

theorem gate_ready (hg : Gate h s) {w : Worker c} (hph : s.phase w = .ready) :
    Gate ((s, .ready w) :: h) { s.enter w .polling with readyBytes := s.readyBytes + 1 } := by
  have hcount := count_update Phase.announced s.phase w .polling
  simp only [hph, Phase.announced, Bool.false_eq_true, if_false, if_true, Nat.add_zero] at hcount
  constructor
  · have ha := hg.announced
    rw [readyRead_of_ne (by simp)]
    refine Eq.trans ?_ hcount.symm
    simp only
    omega
  · rw [readyRead_of_ne (by simp)]
    exact hg.taken
  · intro he
    exact hg.failed (by simpa using he)
  · exact fun h0 => asleep_enter (hg.asleep h0) rfl
  · rw [readyRead_of_ne (by simp)]
    exact hg.awake

theorem gate_create (hg : Gate h s) (hb : Births s) {w : Worker c}
    (hmain : s.main = .creating (number w)) :
    Gate ((s, .create w) :: h) { s.enter w .ready with main := .creating (number w + 1) } := by
  have hunborn : s.phase w = .unborn :=
    (hb (number w) (by simp [hmain, MainPc.created?]) w).mpr le_rfl
  refine hg.frame (by simp) (by simp) rfl rfl ?_ ?_ ?_ ?_
  · exact count_enter (by simp [hunborn, Phase.announced])
  · simp [hmain, MainPc.taken?]
  · simp [hmain]
  · exact fun h0 => asleep_enter (hg.asleep h0) rfl

theorem gate_forkFails (hg : Gate h s) {k : ℕ} (hmain : s.main = .creating k) :
    Gate ((s, .forkFails) :: h) { s with main := .exited c.forkStatus } := by
  have hshut : s.wakeBytes = 0 := (hg.taken 0 (by simp [hmain, MainPc.taken?])).2
  constructor
  · rw [readyRead_of_ne (by simp)]
    exact hg.announced
  · simp [MainPc.taken?]
  · exact fun _ => ⟨hshut, c.forkStatus, rfl⟩
  · exact hg.asleep
  · exact fun hw => absurd hshut (by simp only at hw; omega)

theorem gate_readReady (hg : Gate h s) {i n : ℕ} (hmain : s.main = .reading i)
    (hbytes : s.readyBytes = n + 1) :
    Gate ((s, .readReady) :: h) { s with main := .reading (i + 1), readyBytes := n } := by
  obtain ⟨hread, hshut⟩ := hg.taken i (by simp [hmain, MainPc.taken?])
  have ha := hg.announced
  constructor
  · rw [readyRead_readReady]
    simp only
    omega
  · intro k hk
    obtain rfl : i + 1 = k := by simpa [MainPc.taken?] using hk
    rw [readyRead_readReady, hread]
    exact ⟨rfl, hshut⟩
  · intro he
    obtain ⟨-, status, hst⟩ := hg.failed (by simpa using he)
    simp [hmain] at hst
  · exact hg.asleep
  · exact fun hw => absurd hshut (by simp only at hw; omega)

theorem gate_wake (hg : Gate h s) {i : ℕ} (hmain : s.main = .reading i)
    (hi : c.totalChildren ≤ i) :
    Gate ((s, .wake) :: h) { s with main := .reaping 0, wakeBytes := s.wakeBytes + 1 } := by
  have hread := (hg.taken i (by simp [hmain, MainPc.taken?])).1
  constructor
  · rw [readyRead_of_ne (by simp)]
    exact hg.announced
  · simp [MainPc.taken?]
  · intro he
    obtain ⟨-, status, hst⟩ := hg.failed (by simpa using he)
    simp [hmain] at hst
  · simp
  · intro _
    rw [readyRead_of_ne (by simp), hread]
    exact hi

/-- A move of a worker that is past `poll`. -/
theorem gate_awake (hg : Gate h s) (hl : l ≠ .readReady) (hfork : l ≠ .forkFails)
    {w : Worker c} {ph : Phase} (hw : (s.phase w).asleep = false)
    (hph : ph.announced = (s.phase w).announced) : Gate ((s, l) :: h) (s.enter w ph) :=
  hg.frame hl hfork rfl rfl (count_enter hph) (fun _ hi => hi) (fun _ hst => hst)
    fun h0 => absurd h0 (hg.wake_of_running hw)

theorem gate_step (hg : Gate h s) (hb : Births s) (hs : Step s l s') : Gate ((s, l) :: h) s' := by
  cases hs with
  | create hmain => exact gate_create hg hb hmain
  | forkFails hmain hk => exact gate_forkFails hg hmain
  | created hmain hk =>
      refine hg.frame (by simp) (by simp) rfl rfl rfl ?_ ?_ ?_
      · simp [hmain, MainPc.taken?]
      · simp [hmain]
      · exact hg.asleep
  | ready hrun hph hroom => exact gate_ready hg hph
  | readReady hmain hbytes hi => exact gate_readReady hg hmain hbytes
  | wake hmain hi => exact gate_wake hg hmain hi
  | poll hrun hph hwake =>
      refine hg.frame (by simp) (by simp) rfl rfl ?_ ?_ ?_ ?_
      · exact count_enter (by simp [hph, Phase.announced])
      · exact fun _ hi => hi
      · exact fun _ hst => hst
      · exact fun h0 => absurd h0 (Nat.ne_of_gt hwake)
  | write hwrites hopen hpos hret hroom =>
      exact hg.frame (by simp) (by simp) rfl rfl rfl (fun _ hi => hi) (fun _ hst => hst) hg.asleep
  | sigpipe hwrites hclosed =>
      refine gate_awake hg (by simp) (by simp) ?_ ?_
      · simp [hwrites.2.1, Phase.asleep]
      · simp [hwrites.2.1, Phase.announced]
  | read hreads hpos hret hbytes =>
      exact hg.frame (by simp) (by simp) rfl rfl rfl (fun _ hi => hi) (fun _ hst => hst) hg.asleep
  | readEof hreads hempty hclosed =>
      exact hg.frame (by simp) (by simp) rfl rfl rfl (fun _ hi => hi) (fun _ hst => hst) hg.asleep
  | exit hrun hph hover =>
      refine gate_awake hg (by simp) (by simp) ?_ ?_
      · simp [hph, Phase.asleep]
      · simp [hph, Phase.announced]
  | @reap w i hmain hi hph hnext =>
      refine hg.frame (by simp) (by simp) rfl rfl ?_ ?_ ?_ ?_
      · exact count_enter (by simp [hph, Phase.announced])
      · simp [MainPc.taken?]
      · simp [hmain]
      · exact fun h0 => absurd h0 (hg.wake_of_running (w := w) (by simp [hph, Phase.asleep]))
  | @reapKilled w i hmain hi hph =>
      refine hg.frame (by simp) (by simp) rfl rfl ?_ ?_ ?_ ?_
      · exact count_enter (by simp [hph, Phase.announced])
      · simp [MainPc.taken?]
      · simp [hmain]
      · exact fun h0 => absurd h0 (hg.wake_of_running (w := w) (by simp [hph, Phase.asleep]))
  | report hmain hi =>
      refine hg.frame (by simp) (by simp) rfl rfl rfl ?_ ?_ ?_
      · simp [MainPc.taken?]
      · simp [hmain]
      · exact hg.asleep

theorem gate_run (run : (machine c).Run h s) : Gate h s :=
  run.invariant gate_init fun _ _ _ _ run hg hs => gate_step hg (births_run run) (.of_step hs)

/-- A step that moves data is taken by a worker that is past `poll`. -/
theorem awake_of_moves (hs : Step s l s') (hl : l.moves) :
    ∃ w, (s.phase w).asleep = false := by
  cases hs with
  | @write g i ret hwrites => exact ⟨(.sender, g, i), by simp [hwrites.2.1, Phase.asleep]⟩
  | @read g j ret hreads => exact ⟨(.receiver, g, j), by simp [hreads.2.1, Phase.asleep]⟩
  | _ => cases hl

/-- Every worker has been heard of once the wake byte is written. -/
theorem Gate.all_announced (hg : Gate h s) (hw : s.wakeBytes ≠ 0) :
    readyRead h = c.totalChildren ∧ ∀ w, (s.phase w).announced := by
  have hread := hg.awake (Nat.pos_of_ne_zero hw)
  have hle := count_le_card Phase.announced s.phase
  have hsum := hg.announced
  rw [card_worker] at hle
  have hcount : count Phase.announced s.phase = Fintype.card (Worker c) := by
    rw [card_worker]
    omega
  exact ⟨by omega, count_eq_card_iff.mp hcount⟩

/-- One receiver and one sender start up, the sender first. -/
def startup : List (Label ⟨1, 1, 1, true, 100⟩) :=
  [.create (.receiver, 0, 0), .create (.sender, 0, 0), .created, .ready (.sender, 0, 0),
    .readReady, .ready (.receiver, 0, 0), .readReady, .wake, .poll (.sender, 0, 0)]

/-- A message in two writes and two reads, cut at different places. -/
def transfer : List (Label ⟨1, 1, 1, true, 100⟩) :=
  [.write 0 0 60, .poll (.receiver, 0, 0), .read 0 0 30, .write 0 0 40]

/-- In every run, when a byte of a message is written or read, all workers have been
created and have announced themselves, `main` has read one ready byte for each of them,
and no `fork` has failed. -/
theorem moves_after_ready (run : (machine c).Run h s) (hl : l.moves)
    (hs : step c s l = some s') :
    readyRead h = c.totalChildren ∧ (∀ w, (s.phase w).announced) ∧
      ∀ e ∈ h, e.2 ≠ .forkFails := by
  have hg := gate_run run
  obtain ⟨w, hw⟩ := awake_of_moves (.of_step hs) hl
  have hwake := hg.wake_of_running hw
  obtain ⟨hread, hall⟩ := hg.all_announced hwake
  exact ⟨hread, hall, fun e he hfork => hwake (hg.failed ⟨e, he, hfork⟩).1⟩

/-- The sender may start to write before the receiver has seen the wake byte. -/
theorem moves_after_ready_startup :
    ∃ h s, (machine ⟨1, 1, 1, true, 100⟩).Run h s ∧
      (step ⟨1, 1, 1, true, 100⟩ s (.write 0 0 60)).isSome ∧
      s.phase (.receiver, 0, 0) = .polling ∧ readyRead h = 2 := by
  have run := (machine ⟨1, 1, 1, true, 100⟩).run_of_replay startup rfl
  have hall := moves_after_ready run (l := .write 0 0 60) rfl rfl
  exact ⟨_, _, run, rfl, rfl, hall.1⟩

end AutotestClient.Hackbench
