import AutotestClient.Model.Ffsb.Tempdirs
import Mathlib.Data.List.Infix

/-! # Removing what was made

A name is recorded before it is known to be free, and the record outlives the test. So a run removes
only what it made if every name is free and the record was empty. -/

namespace AutotestClient.Ffsb

open Shared.Machine (visited)

variable {resolve : Text → List Text} {names : ℕ → Text} {fuel n fsno : ℕ} {params : Table}
  {p q : Process} {r : FfsbRun} {ms lines : List Text}

/-- Every directory removed was made, and not there before, and each one made is removed once. -/
structure RemovesCreated (p : Process) : Prop where
  created : ∀ l ∈ p.removed, ⟨l, false⟩ ∈ p.created
  once : ∀ l, p.removed.count l = (p.created.map Creation.path).count l

/-! ## The condition -/

/-- The locations that the rewriting of the lines comes to, and whether it comes to the end. -/
def plan (params : Table) : List Text → ℕ → List Text × Bool
  | [], _ => ([], true)
  | line :: lines, fsno =>
      let fsno := fsnoAt fsno line
      match location? line with
      | some path => (path :: (plan params lines fsno).1, (plan params lines fsno).2)
      | none =>
          match newLine params [] fsno line with
          | .error _ => ([], false)
          | .ok _ => plan params lines fsno

/-- The directories named by one random name for each location. -/
def directories (names : ℕ → Text) : List Text → ℕ → List Text
  | [], _ => []
  | path :: paths, n => ffsbdir path (names n) :: directories names paths (n + 1)

/-- None of the directories is there when it is made, nor gone when it is removed. The last one may be
gone, since nothing comes after it. -/
structure Fresh (resolve : Text → List Text) (dirs : List (List Text)) (ms : List Text) :
    Prop where
  absent : ∀ m ∈ ms, resolve m ∉ dirs
  notAbove : ms.Pairwise fun a b => ¬resolve b <+: resolve a
  notInside : ms.dropLast.Pairwise fun a b => ¬resolve a <+: resolve b

/-- If the test comes to its removals, nothing is recorded before it and its names are fresh. If it
fails before, it has no location. -/
def Clean (resolve : Text → List Text) (fuel : ℕ) (p : Process) (r : FfsbRun) : Prop :=
  ∀ params, setFfsbParams fuel r.env r.order r.usrfl = .ok params →
    let todo := plan params (r.usrfl.splitOn '\n') 0
    if todo.2 && r.succeeds then
      p.tempdirs = [] ∧ Fresh resolve p.dirs (directories r.names todo.1 0)
    else todo.1 = []

/-! ## Making the directories -/

/-- What is left of a process when these directories have been made. -/
structure After (resolve : Text → List Text) (p : Process) (ms : List Text) (q : Process) :
    Prop where
  tempdirs : q.tempdirs = p.tempdirs ++ ms
  created : q.created = p.created ++ ms.map (⟨·, false⟩)
  removed : q.removed = p.removed
  dirs : ∀ d ∈ p.dirs, d ∈ q.dirs
  made : ∀ m ∈ ms, resolve m ∈ q.dirs

theorem after_refl (resolve : Text → List Text) (p : Process) : After resolve p [] p where
  tempdirs := (List.append_nil _).symm
  created := (List.append_nil _).symm
  removed := rfl
  dirs _ hd := hd
  made := List.forall_mem_nil _

/-- The process with one more directory, recorded and made. -/
def Process.adding (p : Process) (resolve : Text → List Text) (m : Text) : Process :=
  Process.makedirs { p with tempdirs := p.tempdirs ++ [m] } resolve m

theorem makeTempdir_of_absent {path : Text} (h : resolve (ffsbdir path (names n)) ∉ p.dirs) :
    makeTempdir resolve names path (fuel + 1) n p =
      (p.adding resolve (ffsbdir path (names n)), some (names n, n + 1)) := by
  rw [makeTempdir]
  simp [Process.exists, h, Process.adding]

theorem Fresh.tail {dirs : List (List Text)} {m : Text} (h : Fresh resolve dirs (m :: ms)) :
    Fresh resolve (dirs ++ (resolve m).inits) ms := by
  have habove := List.pairwise_cons.mp h.notAbove
  refine ⟨fun m' hm' => ?_, habove.2, ?_⟩
  · rw [List.mem_append, List.mem_inits, not_or]
    exact ⟨h.absent m' (List.mem_cons_of_mem m hm'), habove.1 m' hm'⟩
  · cases ms with
    | nil => exact .nil
    | cons m' ms => exact (List.pairwise_cons.mp h.notInside).2

theorem After.cons {m : Text} (hm : resolve m ∉ p.dirs)
    (h : After resolve (p.adding resolve m) ms q) : After resolve p (m :: ms) q := by
  have hdirs : (p.adding resolve m).dirs = p.dirs ++ (resolve m).inits := rfl
  constructor
  · rw [h.tempdirs, ← List.singleton_append, ← List.append_assoc]
    rfl
  · have hcreated : (p.adding resolve m).created = p.created ++ [⟨m, false⟩] := by
      simp [Process.adding, Process.makedirs, Process.exists, hm]
    rw [h.created, hcreated, List.map_cons, List.append_assoc, List.singleton_append]
  · exact h.removed
  · intro d hd
    exact h.dirs d (hdirs ▸ List.mem_append_left _ hd)
  · rw [List.forall_mem_cons]
    refine ⟨h.dirs _ ?_, h.made⟩
    rw [hdirs, List.mem_append, List.mem_inits]
    exact .inr List.prefix_rfl

/-- Over a profile with fresh names, each location takes the next name. -/
theorem dupLines_of_fresh (fuel : ℕ)
    (h : Fresh resolve p.dirs (directories names (plan params lines fsno).1 n)) :
    ∃ q e, dupLines resolve names fuel params lines fsno n p = (q, e) ∧
      After resolve p (directories names (plan params lines fsno).1 n) q ∧
      (e = none ↔ (plan params lines fsno).2 = true) := by
  induction lines generalizing fsno n p with
  | nil => exact ⟨p, none, rfl, after_refl resolve p, iff_of_true rfl rfl⟩
  | cons line lines ih =>
      rw [plan] at h ⊢
      rw [dupLines]
      cases hpath : location? line with
      | some path =>
          simp only [hpath, directories] at h ⊢
          have habsent := h.absent _ List.mem_cons_self
          rw [makeTempdir_of_absent habsent]
          have hfresh : Fresh resolve (p.adding resolve (ffsbdir path (names n))).dirs
              (directories names (plan params lines (fsnoAt fsno line)).1 (n + 1)) := h.tail
          obtain ⟨q, e, hdup, hafter, hend⟩ := ih hfresh
          exact ⟨q, e, hdup, hafter.cons habsent, hend⟩
      | none =>
          simp only [hpath] at h ⊢
          cases hnew : newLine params [] (fsnoAt fsno line) line with
          | error e =>
              exact ⟨p, some e, rfl, after_refl resolve p, by simp⟩
          | ok text =>
              simp only [hnew] at h ⊢
              exact ih h

/-! ## Removing them -/

theorem rmtreeAll_of_notInside
    (hinside : ms.dropLast.Pairwise fun a b => ¬resolve a <+: resolve b)
    (hmade : ∀ m ∈ ms.dropLast, resolve m ∈ p.dirs) :
    (rmtreeAll resolve ms p).removed = p.removed ++ ms ∧
      (rmtreeAll resolve ms p).created = p.created := by
  induction ms generalizing p with
  | nil => exact ⟨(List.append_nil _).symm, rfl⟩
  | cons m ms ih =>
      cases ms with
      | nil =>
          -- an exception at the last directory changes nothing
          simp only [rmtreeAll]
          split_ifs <;> exact ⟨rfl, rfl⟩
      | cons m' ms =>
          rw [List.dropLast_cons_cons, List.pairwise_cons] at hinside
          rw [List.dropLast_cons_cons, List.forall_mem_cons] at hmade
          have hexists : p.exists resolve m = true := by simpa [Process.exists] using hmade.1
          rw [rmtreeAll]
          simp only [hexists, if_true]
          -- a directory that is not inside of `m` is still there
          have hrest : ∀ a ∈ (m' :: ms).dropLast,
              resolve a ∈ p.dirs.filter fun d => !(resolve m).isPrefixOf d := by
            intro a ha
            rw [List.mem_filter, Bool.not_eq_true', ← Bool.not_eq_true,
              List.isPrefixOf_iff_prefix]
            exact ⟨hmade.2 a ha, hinside.1 a ha⟩
          obtain ⟨hremoved, hcreated⟩ := @ih
            ⟨p.dirs.filter fun d => !(resolve m).isPrefixOf d, p.tempdirs, p.created,
              p.removed ++ [m]⟩ hinside.2 hrest
          refine ⟨?_, hcreated⟩
          rw [hremoved, List.append_assoc, List.singleton_append]

/-! ## Runs -/

theorem RemovesCreated.append (h : RemovesCreated p) (hremoved : q.removed = p.removed ++ ms)
    (hcreated : q.created = p.created ++ ms.map (⟨·, false⟩)) : RemovesCreated q := by
  constructor
  · rw [hremoved, hcreated]
    intro l hl
    rcases List.mem_append.mp hl with hl | hl
    · exact List.mem_append_left _ (h.created l hl)
    · exact List.mem_append_right _ (List.mem_map.mpr ⟨l, hl, rfl⟩)
  · intro l
    rw [hremoved, hcreated, List.map_append, List.count_append, List.count_append, h.once,
      List.map_map]
    simp [Function.comp_def]

theorem RemovesCreated.runTest (h : RemovesCreated p) (hclean : Clean resolve fuel p r) :
    RemovesCreated (runTest resolve fuel r p) := by
  rw [Ffsb.runTest]
  cases hparams : setFfsbParams fuel r.env r.order r.usrfl with
  | error e => exact h
  | ok params =>
      have hcond := hclean params hparams
      simp only at hcond
      have hfresh : Fresh resolve p.dirs
          (directories r.names (plan params (r.usrfl.splitOn '\n') 0).1 0) := by
        split_ifs at hcond
        · exact hcond.2
        · rw [hcond]
          exact ⟨List.forall_mem_nil _, .nil, .nil⟩
      obtain ⟨q, e, hdup, hafter, hend⟩ := dupLines_of_fresh fuel hfresh
      simp only [hdup]
      by_cases hpass : ((plan params (r.usrfl.splitOn '\n') 0).2 && r.succeeds) = true
      · rw [if_pos hpass] at hcond
        rw [Bool.and_eq_true] at hpass
        obtain rfl := hend.mpr hpass.1
        have htempdirs : q.tempdirs =
            directories r.names (plan params (r.usrfl.splitOn '\n') 0).1 0 := by
          rw [hafter.tempdirs, hcond.1, List.nil_append]
        obtain ⟨hremoved, hcreated⟩ := rmtreeAll_of_notInside hfresh.notInside
          fun m hm => hafter.made m (List.dropLast_subset _ hm)
        simp only [hpass.2, if_true, htempdirs]
        refine h.append ?_ (hcreated.trans hafter.created)
        rw [hremoved, hafter.removed]
      · rw [if_neg hpass] at hcond
        rw [hcond] at hafter
        have hq : RemovesCreated q := h.append (hafter.removed.trans (List.append_nil _).symm)
          hafter.created
        cases e with
        | some e => exact hq
        | none =>
            have hfails : r.succeeds = false := by simpa [hend.mp rfl] using hpass
            simp only [hfails, Bool.false_eq_true, if_false]
            exact hq

/-- In a process whose tests are all clean, only directories that were made are removed, and each of
them once. -/
theorem postprocess_removes_created (resolve : Text → List Text) (fuel : ℕ)
    (dirs : List (List Text)) (h : List (Process × FfsbRun)) (p : Process)
    (run : (process resolve fuel dirs).Run h p) (hclean : ∀ e ∈ h, Clean resolve fuel e.1 e.2) :
    ∀ q ∈ visited h p, RemovesCreated q := by
  induction run with
  | init =>
      rw [Shared.Machine.visited_nil, List.forall_mem_singleton]
      exact ⟨List.forall_mem_nil _, fun _ => rfl⟩
  | @step h p r p' run hstep ih =>
      rw [List.forall_mem_cons] at hclean
      have hvisited := ih hclean.2
      rw [Shared.Machine.visited_cons, List.forall_mem_cons]
      refine ⟨?_, hvisited⟩
      obtain rfl := Option.some.inj hstep
      exact (hvisited p List.mem_cons_self).runTest hclean.1

/-! ## Two processes -/

/-- The components of an absolute path. -/
def components (path : Text) : List Text :=
  (path.splitOn '/').filter (· ≠ [])

def smallProfile : Text :=
  "[filesystem0]\nlocation=/mnt\nnum_files=1\nmax_filesize=1k".toList

def smallDisk : Env := ⟨fun _ => "/mnt".toList, fun _ => 4096⟩

/-- A test that passes, with one section on a disk that has the space for it. -/
def smallTest (names : ℕ → Text) : FfsbRun := ⟨smallProfile, smallDisk, [0], names, true⟩

theorem setFfsbParams_smallProfile : setFfsbParams 2 smallDisk [0] smallProfile =
    .ok [(0, [.path "/mnt".toList, .num 3072, .num 1, .num 1024])] := by
  decide +kernel

/-- The process with a disk and what these directories are on it. -/
def mounted (names : List Text) : Shared.Machine Process FfsbRun :=
  process components 2 ([] :: ["mnt".toList] :: names.map fun name => ["mnt".toList, name])

theorem smallTest_clean : Clean components 2 (mounted []).init
    (smallTest fun _ => "abcdefghi".toList) := by
  intro params hparams
  obtain rfl := Except.ok.inj (setFfsbParams_smallProfile.symm.trans hparams)
  exact ⟨rfl, by decide +kernel, by decide +kernel, by decide +kernel⟩

/-- The name is free, and the directory is removed after the test. -/
theorem postprocess_removes_created_free :
    RemovesCreated (runTest components 2 (smallTest fun _ => "abcdefghi".toList)
      (mounted []).init) :=
  postprocess_removes_created components 2 _ _ _ (.step .init rfl)
    (List.forall_mem_singleton.mpr smallTest_clean) _ List.mem_cons_self

/-- A name that is taken, and a second test. The one removes a directory that was there before, the
other the directory of the first test again. -/
theorem postprocess_removes_other :
    ¬RemovesCreated (runTest components 2
        (smallTest fun n => if n = 0 then "abcdefghi".toList else "jklmnopqr".toList)
        (mounted ["abcdefghi".toList]).init) ∧
      ¬RemovesCreated (runTest components 2 (smallTest fun _ => "jklmnopqr".toList)
        (runTest components 2 (smallTest fun _ => "abcdefghi".toList) (mounted []).init)) := by
  refine ⟨fun h => ?_, fun h => ?_⟩
  · have hcreated := h.created "/mnt/abcdefghi".toList (by decide +kernel)
    revert hcreated
    decide +kernel
  · have honce := h.once "/mnt/abcdefghi".toList
    revert honce
    decide +kernel

end AutotestClient.Ffsb
