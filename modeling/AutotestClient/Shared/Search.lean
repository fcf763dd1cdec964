import Mathlib.Data.List.Infix

/-! # Searching a text for a pattern

Patterns of single entries and repeated classes, where the repetitions are greedy and give back
what the rest of the pattern needs. A search finds the matches from left to right, none inside
another. -/

namespace AutotestClient.Shared

variable {α β : Type*}

inductive Item (α : Type*) where
  /-- The entry itself. -/
  | lit (a : α)
  /-- A group of one or more entries of a class. -/
  | group (p : α → Bool)

/-- One or more entries with `p`, as many as possible so that `next` succeeds on the rest. -/
def greedy (p : α → Bool) (next : List α → Option β) : List α → Option (List α × β)
  | [] => none
  | c :: text =>
      if p c then
        match greedy p next text with
        | some (u, b) => some (c :: u, b)
        | none => (next text).map fun b => ([c], b)
      else none

variable [DecidableEq α]

/-- The groups of a match at the beginning of the text, and what is behind the match. -/
def matchHere : List (Item α) → List α → Option (List (List α) × List α)
  | [], text => some ([], text)
  | .lit _ :: _, [] => none
  | .lit a :: items, c :: text => if c = a then matchHere items text else none
  | .group p :: items, text =>
      (greedy p (matchHere items) text).map fun m => (m.1 :: m.2.1, m.2.2)

/-- The matches of a text after the first `k` entries. -/
def search (items : List (Item α)) : ℕ → List α → List (List (List α))
  | 0, [] => ((matchHere items []).map Prod.fst).toList
  | 0, c :: text =>
      match matchHere items (c :: text) with
      | some (groups, rest) => groups :: search items (text.length - rest.length) text
      | none => search items 0 text
  | _ + 1, [] => []
  | k + 1, _ :: text => search items k text

def findall (items : List (Item α)) (text : List α) : List (List (List α)) := search items 0 text

variable {p q : α → Bool} {items : List (Item α)} {groups : List (List α)} {a b c : α}
  {f u v text rest : List α}

/-! ## Groups -/

omit [DecidableEq α] in
theorem greedy_of_head {next : List α → Option β} (h : ∀ c ∈ text.head?, p c = false) :
    greedy p next text = none := by
  cases text with
  | nil => rfl
  | cons c text => rw [greedy, if_neg (by simp [h c rfl])]

omit [DecidableEq α] in
/-- A group takes a field if the pattern cannot go on inside of it. -/
theorem greedy_append {next : List α → Option β} (hne : f ≠ []) (hf : ∀ c ∈ f, p c)
    (hv : ∀ c ∈ v.head?, p c = false) (hnext : ∀ c w, p c → next (c :: w) = none) :
    greedy p next (f ++ v) = (next v).map fun b => (f, b) := by
  induction f with
  | nil => exact absurd rfl hne
  | cons c f ih =>
      rw [List.forall_mem_cons] at hf
      rw [List.cons_append, greedy, if_pos hf.1]
      cases f with
      | nil => rw [List.nil_append, greedy_of_head hv]
      | cons d f =>
          rw [ih (List.cons_ne_nil d f) hf.2, List.cons_append,
            hnext d _ (hf.2 d List.mem_cons_self)]
          cases next v <;> rfl

omit [DecidableEq α] in
/-- A group takes a field if the pattern goes on behind it. -/
theorem greedy_of_some {next : List α → Option β} {x : β} (hne : f ≠ []) (hf : ∀ c ∈ f, p c)
    (hv : ∀ c ∈ v.head?, p c = false) (hnext : next v = some x) :
    greedy p next (f ++ v) = some (f, x) := by
  induction f with
  | nil => exact absurd rfl hne
  | cons c f ih =>
      rw [List.forall_mem_cons] at hf
      rw [List.cons_append, greedy, if_pos hf.1]
      cases f with
      | nil => rw [List.nil_append, greedy_of_head hv, hnext]; rfl
      | cons d f => rw [ih (List.cons_ne_nil d f) hf.2]

omit [DecidableEq α] in
theorem exists_of_greedy {next : List α → Option β} {x : β}
    (h : greedy p next text = some (u, x)) :
    (∀ c ∈ u, p c) ∧ ∃ v, text = u ++ v ∧ next v = some x := by
  induction text generalizing u with
  | nil => cases h
  | cons c text ih =>
      rw [greedy] at h
      split_ifs at h with hc
      cases hrest : greedy p next text with
      | some m =>
          obtain ⟨w, y⟩ := m
          rw [hrest] at h
          cases h
          obtain ⟨hw, v, rfl, hnext⟩ := ih hrest
          exact ⟨List.forall_mem_cons.mpr ⟨hc, hw⟩, v, rfl, hnext⟩
      | none =>
          rw [hrest] at h
          obtain ⟨y, hnext, hpair⟩ := Option.map_eq_some_iff.mp h
          cases hpair
          exact ⟨by simpa using hc, text, rfl, hnext⟩

/-! ## Matches -/

theorem matchHere_group_of_head (h : ∀ c ∈ text.head?, p c = false) :
    matchHere (.group p :: items) text = none := by
  rw [matchHere, greedy_of_head h]
  rfl

theorem matchHere_lit : matchHere (.lit a :: items) (a :: text) = matchHere items text := by
  rw [matchHere, if_pos rfl]

/-- A field and its separator. -/
theorem matchHere_field (hne : f ≠ []) (hf : ∀ c ∈ f, p c) (hb : p b = false) :
    matchHere (.group p :: .lit b :: items) (f ++ b :: v) =
      (matchHere items v).map fun m => (f :: m.1, m.2) := by
  have hnext (c : α) (w : List α) (hc : p c) : matchHere (.lit b :: items) (c :: w) = none := by
    have hcb : c ≠ b := by
      rintro rfl
      rw [hb] at hc
      cases hc
    rw [matchHere, if_neg hcb]
  rw [matchHere, greedy_append hne hf (by simpa using hb) hnext, matchHere_lit, Option.map_map]
  rfl

/-- The field at the end of the pattern. -/
theorem matchHere_last (hne : f ≠ []) (hf : ∀ c ∈ f, p c) (hv : ∀ c ∈ v.head?, p c = false) :
    matchHere [.group p] (f ++ v) = some ([f], v) := by
  have hend : matchHere [] v = some ([], v) := rfl
  rw [matchHere, greedy_of_some hne hf hv hend]
  rfl

/-- The entry itself is one with `q`. -/
def Item.isLit (q : α → Bool) : Item α → Bool
  | .lit a => q a
  | .group _ => false

/-- No group has an entry with `q`. -/
def Apart (q : α → Bool) (items : List (Item α)) : Prop :=
  ∀ p, Item.group p ∈ items → ∀ c, p c → q c = false

/-- Entries that are in no group of a match are as many as in the pattern. -/
theorem exists_of_matchHere (hq : Apart q items) (h : matchHere items text = some (groups, rest)) :
    ∃ u, text = u ++ rest ∧ u.countP q = items.countP (Item.isLit q) := by
  induction items generalizing text groups with
  | nil =>
      cases h
      exact ⟨[], rfl, rfl⟩
  | cons item items ih =>
      have hq' : Apart q items := fun p hp => hq p (List.mem_cons_of_mem _ hp)
      cases item with
      | lit a =>
          cases text with
          | nil => cases h
          | cons c text =>
              rw [matchHere] at h
              split_ifs at h with hc
              obtain ⟨u, rfl, hcount⟩ := ih hq' h
              exact ⟨c :: u, rfl, by rw [List.countP_cons, List.countP_cons, hcount, hc]; rfl⟩
      | group p =>
          obtain ⟨⟨f, m⟩, hgreedy, hpair⟩ := Option.map_eq_some_iff.mp h
          cases hpair
          obtain ⟨hf, v, rfl, hnext⟩ := exists_of_greedy hgreedy
          obtain ⟨u, rfl, hcount⟩ := ih hq' hnext
          have hnone : f.countP q = 0 :=
            List.countP_eq_zero.mpr fun c hc => by simp [hq p List.mem_cons_self c (hf c hc)]
          exact ⟨f ++ u, by rw [List.append_assoc],
            by rw [List.countP_append, hnone, Nat.zero_add, hcount]; rfl⟩

/-- There is no match in a part with too few of the entries that a match must have, if a match
cannot go on behind that part. -/
theorem matchHere_eq_none_of_countP {r : α → Bool} (hq : Apart q items) (hr : Apart r items)
    (hnone : items.countP (Item.isLit r) = 0) (hv : ∀ c ∈ v.head?, r c)
    (hfew : u.countP q < items.countP (Item.isLit q)) : matchHere items (u ++ v) = none := by
  cases hmatch : matchHere items (u ++ v) with
  | none => rfl
  | some m =>
      obtain ⟨groups, rest⟩ := m
      obtain ⟨w, hsplit, hcount⟩ := exists_of_matchHere hq hmatch
      obtain ⟨w', hsplit', hcount'⟩ := exists_of_matchHere hr hmatch
      obtain rfl := List.append_cancel_right (hsplit.symm.trans hsplit')
      rw [hnone, List.countP_eq_zero] at hcount'
      exfalso
      rcases List.append_eq_append_iff.mp hsplit with ⟨t, rfl, hrest⟩ | ⟨t, rfl, -⟩
      · cases t with
        | nil =>
            rw [List.append_nil] at hcount
            omega
        | cons d t => exact hcount' d (by simp) (hv d (by simp [hrest]))
      · rw [List.countP_append] at hfew
        omega

/-! ## Searches -/

theorem search_length (u v : List α) : search items u.length (u ++ v) = search items 0 v := by
  induction u with
  | nil => rfl
  | cons c u ih => rw [List.length_cons, List.cons_append, search, ih]

theorem findall_of_match (hne : u ≠ []) (h : matchHere items (u ++ v) = some (groups, v)) :
    findall items (u ++ v) = groups :: findall items v := by
  cases u with
  | nil => exact absurd rfl hne
  | cons c u =>
      rw [List.cons_append] at h
      rw [findall, List.cons_append, search, h]
      simp only [List.length_append, Nat.add_sub_cancel]
      rw [search_length, findall]

theorem findall_of_none (h : matchHere items (c :: text) = none) :
    findall items (c :: text) = findall items text := by
  rw [findall, search, h]
  rfl

theorem findall_of_countP {r : α → Bool} (hq : Apart q items) (hr : Apart r items)
    (hnone : items.countP (Item.isLit r) = 0) (hv : ∀ c ∈ v.head?, r c)
    (hfew : u.countP q < items.countP (Item.isLit q)) :
    findall items (u ++ v) = findall items v := by
  induction u with
  | nil => rfl
  | cons c u ih =>
      have hmatch : matchHere items (c :: (u ++ v)) = none :=
        matchHere_eq_none_of_countP hq hr hnone hv hfew
      rw [List.countP_cons] at hfew
      rw [List.cons_append, findall_of_none hmatch, ih (by omega)]

/-- A field is passed over if there is no match behind its separator. -/
theorem findall_field_of_none (hf : ∀ c ∈ f, p c) (hb : p b = false)
    (h : matchHere items v = none) :
    findall (.group p :: .lit b :: items) (f ++ b :: v) =
      findall (.group p :: .lit b :: items) v := by
  induction f with
  | nil =>
      rw [List.nil_append, findall_of_none (matchHere_group_of_head (by simpa using hb))]
  | cons c f ih =>
      have hmatch : matchHere (.group p :: .lit b :: items) (c :: (f ++ b :: v)) = none := by
        rw [← List.cons_append, matchHere_field (List.cons_ne_nil c f) hf hb, h]
        rfl
      rw [List.forall_mem_cons] at hf
      rw [List.cons_append, findall_of_none hmatch, ih hf.2]

end AutotestClient.Shared
