import Mathlib.Data.List.Basic

/-! # Machines, histories and the invariant rules -/

namespace AutotestClient.Shared

/-- A machine whose choices are all carried by its labels. A label that is not
enabled in a state is refused with `none`. -/
structure Machine (σ ℓ : Type*) where
  init : σ
  step : σ → ℓ → Option σ

namespace Machine

variable {σ ℓ : Type*}

/-- `M.Run h s`: the machine reaches `s`, and `h` lists the steps taken with the
states they were taken in, newest first. -/
inductive Run (M : Machine σ ℓ) : List (σ × ℓ) → σ → Prop where
  | init : Run M [] M.init
  | step {h s l s'} (run : Run M h s) (hs : M.step s l = some s') : Run M ((s, l) :: h) s'

/-- Every state a run went through, its last one included. -/
def visited (h : List (σ × ℓ)) (s : σ) : List σ := s :: h.map Prod.fst

@[simp] theorem visited_nil (s : σ) : visited ([] : List (σ × ℓ)) s = [s] := rfl

@[simp] theorem visited_cons (e : σ × ℓ) (h : List (σ × ℓ)) (s : σ) :
    visited (e :: h) s = s :: visited h e.1 := rfl

variable {M : Machine σ ℓ}

/-- A property of history and state that holds at the start and is kept by every
step holds along every run. -/
theorem Run.invariant {h : List (σ × ℓ)} {s : σ} (run : M.Run h s)
    {I : List (σ × ℓ) → σ → Prop} (hinit : I [] M.init)
    (hstep : ∀ h s l s', M.Run h s → I h s → M.step s l = some s' → I ((s, l) :: h) s') :
    I h s := by
  induction run with
  | init => exact hinit
  | step run hs ih => exact hstep _ _ _ _ run ih hs

/-- When every step lowers a measure, no run is longer than the measure of the start. -/
theorem Run.length_add_le {h : List (σ × ℓ)} {s : σ} (run : M.Run h s) {μ : σ → ℕ}
    (hstep : ∀ h s l s', M.Run h s → M.step s l = some s' → μ s' < μ s) :
    h.length + μ s ≤ μ M.init := by
  induction run with
  | init => simp
  | @step h s l s' run hs ih =>
      have hlt := hstep h s l s' run hs
      simp only [List.length_cons]
      omega

/-- When a condition on steps decides, step by step, whether a property of states
survives, the property holds in all states of a run exactly if every step of the run
meets the condition. -/
theorem Run.forall_visited_iff {h : List (σ × ℓ)} {s : σ} (run : M.Run h s)
    {I : σ → Prop} {C : σ → ℓ → Prop} (hinit : I M.init)
    (hstep : ∀ h s l s', M.Run h s → I s → M.step s l = some s' → (I s' ↔ C s l)) :
    (∀ t ∈ visited h s, I t) ↔ ∀ e ∈ h, C e.1 e.2 := by
  induction run with
  | init => simpa using hinit
  | @step h s l s' run hs ih =>
      simp only [visited_cons, List.forall_mem_cons]
      rw [ih]
      refine and_congr_left fun hrest => ?_
      have hi : I s := ih.mpr hrest s List.mem_cons_self
      exact hstep h s l s' run hi hs

/-- Each step in a history was taken at the end of a run with the older steps. -/
theorem Run.of_append {newer older : List (σ × ℓ)} {s t : σ} {l : ℓ}
    (run : M.Run (newer ++ (t, l) :: older) s) : M.Run older t ∧ ∃ t', M.step t l = some t' := by
  induction newer generalizing s with
  | nil =>
      cases run with
      | step run hs => exact ⟨run, _, hs⟩
  | cons e newer ih =>
      cases run with
      | step run hs => exact ih run

theorem Run.of_mem {h : List (σ × ℓ)} {s t : σ} {l : ℓ} (run : M.Run h s) (hm : (t, l) ∈ h) :
    ∃ newer older t', h = newer ++ (t, l) :: older ∧ M.Run older t ∧ M.step t l = some t' := by
  obtain ⟨newer, older, rfl⟩ := List.append_of_mem hm
  obtain ⟨hrun, t', ht⟩ := run.of_append
  exact ⟨newer, older, t', rfl, hrun, ht⟩

/-- Runs labels in the order given, adding to a history. -/
def replayFrom (M : Machine σ ℓ) : List (σ × ℓ) → σ → List ℓ → Option (List (σ × ℓ) × σ)
  | h, s, [] => some (h, s)
  | h, s, l :: ls => (M.step s l).bind fun s' => M.replayFrom ((s, l) :: h) s' ls

/-- The run with the given labels, oldest first, if they are all enabled. -/
def replay (M : Machine σ ℓ) (ls : List ℓ) : Option (List (σ × ℓ) × σ) :=
  M.replayFrom [] M.init ls

theorem Run.replayFrom {h h' : List (σ × ℓ)} {s s' : σ} (run : M.Run h s) (ls : List ℓ)
    (hr : M.replayFrom h s ls = some (h', s')) : M.Run h' s' := by
  induction ls generalizing h s with
  | nil =>
      simp only [Machine.replayFrom, Option.some.injEq, Prod.mk.injEq] at hr
      obtain ⟨rfl, rfl⟩ := hr
      exact run
  | cons l ls ih =>
      simp only [Machine.replayFrom, Option.bind_eq_some_iff] at hr
      obtain ⟨t, ht, hrest⟩ := hr
      exact ih (.step run ht) hrest

theorem run_of_replay {h : List (σ × ℓ)} {s : σ} (ls : List ℓ)
    (hr : M.replay ls = some (h, s)) : M.Run h s :=
  Run.init.replayFrom ls hr

end Machine

end AutotestClient.Shared
