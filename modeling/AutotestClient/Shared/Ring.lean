import Mathlib.Data.List.Basic
import Mathlib.Data.List.Nodup
import Mathlib.Logic.Function.Basic

/-! # Circular doubly linked lists -/

namespace AutotestClient.Shared

variable {α : Type*}

/-- The links of the nodes. -/
structure Links (α : Type*) where
  next : α → α
  prev : α → α

namespace Links

/-- `b` comes after `a`. -/
def Linked (L : Links α) (a b : α) : Prop := L.next a = b ∧ L.prev b = a

/-- The way from `a` over the nodes of the list to `b`. -/
def Seg (L : Links α) : α → List α → α → Prop
  | a, [], b => L.Linked a b
  | a, x :: xs, b => L.Linked a x ∧ L.Seg x xs b

/-- The list is the ring that starts at its head. -/
def Ring (L : Links α) : List α → Prop
  | [] => True
  | x :: xs => (x :: xs).Nodup ∧ L.Seg x xs x

variable {L M : Links α} {a b x : α} {xs ys : List α}

/-! ## Ways -/

theorem seg_append (a : α) (xs : List α) (y : α) (ys : List α) (b : α) :
    L.Seg a (xs ++ y :: ys) b ↔ L.Seg a xs y ∧ L.Seg y ys b := by
  induction xs generalizing a with
  | nil => rfl
  | cons x xs ih => simp only [List.cons_append, Seg, ih, and_assoc]

/-- A way depends on the next nodes of all but its end and on the previous nodes of all but its
start. -/
theorem Seg.congr (hs : L.Seg a xs b) (hnext : ∀ x ∈ a :: xs, M.next x = L.next x)
    (hprev : ∀ x ∈ xs ++ [b], M.prev x = L.prev x) : M.Seg a xs b := by
  induction xs generalizing a with
  | nil =>
      refine ⟨?_, ?_⟩
      · rw [hnext a List.mem_cons_self]
        exact hs.1
      · rw [hprev b (by simp)]
        exact hs.2
  | cons x xs ih =>
      refine ⟨⟨?_, ?_⟩, ih hs.2 (fun y hy => hnext y ?_) fun y hy => hprev y ?_⟩
      · rw [hnext a List.mem_cons_self]
        exact hs.1.1
      · rw [hprev x (by simp)]
        exact hs.1.2
      · exact List.mem_cons_of_mem a hy
      · exact List.mem_cons_of_mem x hy

/-! ## Rings -/

theorem Ring.nodup (hr : L.Ring xs) : xs.Nodup := by
  cases xs with
  | nil => exact List.nodup_nil
  | cons x xs => exact hr.1

/-- A ring depends on the links of its nodes only. -/
theorem Ring.congr (hr : L.Ring xs) (hnext : ∀ x ∈ xs, M.next x = L.next x)
    (hprev : ∀ x ∈ xs, M.prev x = L.prev x) : M.Ring xs := by
  cases xs with
  | nil => trivial
  | cons x xs =>
      refine ⟨hr.1, hr.2.congr hnext fun y hy => hprev y ?_⟩
      simpa [or_comm] using hy

theorem Ring.rotate_one (hr : L.Ring (x :: xs)) : L.Ring (xs ++ [x]) := by
  obtain ⟨hnodup, hseg⟩ := hr
  have hnodup' : (xs ++ [x]).Nodup := (List.perm_append_singleton x xs).symm.nodup hnodup
  cases xs with
  | nil => exact ⟨hnodup', hseg⟩
  | cons y ys => exact ⟨hnodup', (seg_append y ys x [] y).mpr ⟨hseg.2, hseg.1⟩⟩

/-- A ring can start at any of its nodes. -/
theorem Ring.rotate (hr : L.Ring (xs ++ ys)) : L.Ring (ys ++ xs) := by
  induction xs generalizing ys with
  | nil => simpa using hr
  | cons x xs ih =>
      have hone : L.Ring (xs ++ (ys ++ [x])) := by
        simpa using hr.rotate_one
      simpa using ih hone

theorem Ring.prev_singleton (hr : L.Ring [a]) : L.prev a = a := hr.2.2

theorem Ring.prev_head (hr : L.Ring (x :: (xs ++ [a]))) : L.prev x = a := by
  have hrot : L.Ring ([a] ++ x :: xs) := Ring.rotate hr
  exact hrot.2.1.2

/-- The previous node of the head is the last one. -/
theorem Ring.prev_head_mem (hr : L.Ring (a :: xs)) (hxs : xs ≠ []) : L.prev a ∈ xs := by
  rcases List.eq_nil_or_concat xs with hnil | ⟨ys, l, hys⟩
  · exact absurd hnil hxs
  · rw [List.concat_eq_append] at hys
    subst xs
    rw [hr.prev_head]
    simp

theorem Ring.prev_mem (hr : L.Ring xs) (ha : a ∈ xs) : L.prev a ∈ xs := by
  obtain ⟨ys, zs, rfl⟩ := List.append_of_mem ha
  have hrot : L.Ring (a :: (zs ++ ys)) := hr.rotate
  by_cases hnil : zs ++ ys = []
  · rw [hnil] at hrot
    simp [hrot.prev_singleton]
  · have hmem := hrot.prev_head_mem hnil
    rw [List.mem_append] at hmem
    rw [List.mem_append, List.mem_cons]
    exact hmem.elim (fun h => .inr (.inr h)) .inl

variable [DecidableEq α]

/-- Makes `b` the node after `a`. -/
def link (L : Links α) (a b : α) : Links α :=
  ⟨Function.update L.next a b, Function.update L.prev b a⟩

@[simp] theorem next_link (L : Links α) (a b : α) : (L.link a b).next a = b :=
  Function.update_self ..

@[simp] theorem prev_link (L : Links α) (a b : α) : (L.link a b).prev b = a :=
  Function.update_self ..

theorem next_link_of_ne (L : Links α) {a x : α} (b : α) (hx : x ≠ a) :
    (L.link a b).next x = L.next x :=
  Function.update_of_ne hx ..

theorem prev_link_of_ne (L : Links α) {b x : α} (a : α) (hx : x ≠ b) :
    (L.link a b).prev x = L.prev x :=
  Function.update_of_ne hx ..

theorem linked_link (L : Links α) (a b : α) : (L.link a b).Linked a b :=
  ⟨L.next_link a b, L.prev_link a b⟩

theorem Seg.link (hs : L.Seg a xs b) {u v : α} (hu : u ∉ a :: xs) (hv : v ∉ xs ++ [b]) :
    (L.link u v).Seg a xs b :=
  hs.congr (fun _ hx => L.next_link_of_ne v (ne_of_mem_of_not_mem hx hu))
    fun _ hx => L.prev_link_of_ne u (ne_of_mem_of_not_mem hx hv)

/-- A link between nodes outside of a ring. -/
theorem Ring.link (hr : L.Ring xs) {u v : α} (hu : u ∉ xs) (hv : v ∉ xs) :
    (L.link u v).Ring xs :=
  hr.congr (fun _ hx => L.next_link_of_ne v (ne_of_mem_of_not_mem hx hu))
    fun _ hx => L.prev_link_of_ne u (ne_of_mem_of_not_mem hx hv)

/-- A node linked to itself. -/
theorem ring_link_self (L : Links α) (a : α) : (L.link a a).Ring [a] :=
  ⟨by simp, L.linked_link a a⟩

/-- A new node between the last one and the head. -/
theorem Ring.link_last (hr : L.Ring (x :: xs)) (ha : a ∉ x :: xs) :
    ((L.link (L.prev x) a).link a x).Ring (x :: xs ++ [a]) := by
  obtain ⟨hnodup, hseg⟩ := hr
  have hnodup' : (x :: xs ++ [a]).Nodup :=
    (List.perm_append_singleton a (x :: xs)).symm.nodup (List.nodup_cons.mpr ⟨ha, hnodup⟩)
  refine ⟨hnodup', ?_⟩
  have hne : a ≠ x := fun h => ha (h ▸ List.mem_cons_self)
  rcases List.eq_nil_or_concat xs with rfl | ⟨ys, l, rfl⟩
  · have hprev : L.prev x = x := hseg.2
    rw [hprev]
    refine ⟨⟨?_, ?_⟩, linked_link _ a x⟩
    · rw [next_link_of_ne _ _ hne.symm, next_link]
    · rw [prev_link_of_ne _ _ hne, prev_link]
  · rw [List.concat_eq_append] at hseg hnodup ha ⊢
    obtain ⟨hys, hl⟩ := (seg_append x ys l [] x).mp hseg
    have hprev : L.prev x = l := hl.2
    have hla : l ≠ a := fun h => ha (by simp [h])
    have hend : ys ++ [l] ++ [a] = ys ++ l :: [a] := by simp
    rw [hprev]
    change Seg _ x (ys ++ [l] ++ [a]) x
    rw [hend]
    refine (seg_append x ys l [a] x).mpr ⟨?_, ⟨?_, ?_⟩, linked_link _ a x⟩
    · refine (hys.link ?_ ?_).link ?_ ?_
      · intro hmem
        simp only [List.nodup_cons, List.nodup_append, List.mem_append, List.mem_singleton] at hnodup
        rcases List.mem_cons.mp hmem with rfl | hmem
        · exact hnodup.1 (.inr rfl)
        · exact hnodup.2.2.2 l hmem l rfl rfl
      · exact fun hmem => ha (List.mem_cons_of_mem x hmem)
      · exact fun hmem => ha (by
          rcases List.mem_cons.mp hmem with rfl | hmem
          · exact List.mem_cons_self
          · simp [hmem])
      · exact (List.nodup_cons.mp hnodup).1
    · rw [next_link_of_ne _ _ hla, next_link]
    · rw [prev_link_of_ne _ _ hne, prev_link]

end Links

end AutotestClient.Shared
