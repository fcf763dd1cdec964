import AutotestClient.Model.Aiostress.Opers
import AutotestClient.Verification.Aiostress.Coverage

/-! # The linked lists of operations -/

namespace AutotestClient.Aiostress.Opers

open Shared

section Lists

variable {α : Type*} {L : Links α} {o x : α} {xs ys zs : List α}

/-! ## One list -/

variable [DecidableEq α]

theorem operListAdd_some {list : α} (hlist : list ≠ o) (hprev : L.prev list ≠ o) :
    operListAdd L o (some list) = ((L.link (L.prev list) o).link o list, some list) := by
  simp only [operListAdd, Links.link, Function.update_of_ne hlist]
  rw [Function.update_comm hprev.symm]

/-- `oper_list_add` puts the operation at the end. -/
theorem operListAdd_spec (hr : L.Ring xs) (ho : o ∉ xs) :
    (operListAdd L o xs.head?).1.Ring (xs ++ [o]) ∧
      (operListAdd L o xs.head?).2 = (xs ++ [o]).head? := by
  cases xs with
  | nil => exact ⟨L.ring_link_self o, rfl⟩
  | cons x xs =>
      have hprev : L.prev x ≠ o := ne_of_mem_of_not_mem (hr.prev_mem List.mem_cons_self) ho
      have hx : x ≠ o := ne_of_mem_of_not_mem List.mem_cons_self ho
      rw [List.head?_cons, operListAdd_some hx hprev]
      exact ⟨hr.link_last ho, rfl⟩

/-- The lists have no operation twice and none in common. -/
def Apart (xs ys zs : List α) : Prop := ∀ a, xs.count a + ys.count a + zs.count a ≤ 1

theorem Apart.nodup (ha : Apart xs ys zs) : xs.Nodup :=
  List.nodup_iff_count_le_one.mpr fun a => by
    have hle := ha a
    omega

theorem Apart.rotate (ha : Apart xs ys zs) : Apart ys zs xs := fun a => by
  have hle := ha a
  omega

theorem Apart.move (ha : Apart xs ys zs) (ho : o ∈ xs) : Apart (xs.erase o) (ys ++ [o]) zs := by
  intro a
  have hle := ha a
  rw [List.count_erase, List.count_append, List.count_singleton]
  by_cases hoa : o = a
  · subst a
    have hpos := List.count_pos_iff.mpr ho
    simp only [beq_self_eq_true, if_true]
    omega
  · have hne : (o == a) = false := beq_false_of_ne hoa
    simp only [hne, Bool.false_eq_true, if_false]
    omega

/-- The pointers are those of the three lists. -/
structure Heads.Lists (p : Heads α) (active built finished : List α) : Prop where
  active_eq : p.active = active.head?
  built_eq : p.built = built.head?
  finished_eq : p.finished = finished.head?
  activeRing : p.links.Ring active
  builtRing : p.links.Ring built
  finishedRing : p.links.Ring finished
  apart : Apart active built finished

variable {p : Heads α} {active built finished : List α}

/-- `main` creates the operations in their order. -/
theorem create_spec {opers : List α} (hnodup : opers.Nodup) (L : Links α) :
    (create opers L).Lists opers [] [] := by
  have hall : ∀ (rest done : List α) (p : Links α × Option α), (done ++ rest).Nodup →
      p.1.Ring done → p.2 = done.head? →
      let q := rest.foldl (fun (p : Links α × Option α) o => operListAdd p.1 o p.2) p
      q.1.Ring (done ++ rest) ∧ q.2 = (done ++ rest).head? := by
    intro rest
    induction rest with
    | nil => exact fun done p _ hring hhead => by simpa using ⟨hring, hhead⟩
    | cons o rest ih =>
        intro done p hnodup hring hhead
        have hsplit : done ++ o :: rest = (done ++ [o]) ++ rest := by simp
        rw [hsplit] at hnodup ⊢
        have ho : o ∉ done := fun h =>
          (List.nodup_append.mp (List.nodup_append.mp hnodup).1).2.2 o h o (by simp) rfl
        obtain ⟨hadd, hhead'⟩ := operListAdd_spec hring ho
        rw [← hhead] at hadd hhead'
        exact ih (done ++ [o]) _ hnodup hadd hhead'
  obtain ⟨hring, hhead⟩ := hall opers [] (L, none) hnodup trivial rfl
  refine ⟨hhead, rfl, rfl, hring, trivial, trivial, fun a => ?_⟩
  simpa using List.nodup_iff_count_le_one.mp hnodup a

end Lists

/-! ## The lists of a thread -/

open Worker

variable {c : Config} {s s' : State c} {l : Label c} {h : List (State c × Label c)}
  {p : Heads (Oper c)}

/-- The pointers of a thread in a state. -/
def Represents (p : Heads (Oper c)) (s : State c) : Prop :=
  p.Lists s.active s.pc.batch.built s.finished

/-- A step that moves no operation. -/
theorem Represents.frame (hp : Represents p s) (hactive : s'.active = s.active)
    (hbuilt : s'.pc.batch.built = s.pc.batch.built) (hfinished : s'.finished = s.finished) :
    Represents p s' := by
  rw [Represents, hactive, hbuilt, hfinished]
  exact hp

end AutotestClient.Aiostress.Opers
