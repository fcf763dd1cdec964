import Mathlib.Data.List.Chain
import Mathlib.Data.List.Dedup
import Mathlib.Data.List.DropRight
import Mathlib.Data.List.Flatten
import Mathlib.Data.List.TakeWhile

/-! # Words of a text

The parts of a text between separators, and when they give the text back. -/

namespace AutotestClient.Shared

variable {α : Type*} {p : α → Bool} {b : α}

/-- A repetition stops where the next entry is none of its own. -/
theorem takeWhile_append_of_head {p : α → Bool} {u rest : List α} (hu : ∀ c ∈ u, p c)
    (hrest : ∀ c ∈ rest.head?, p c = false) :
    (u ++ rest).takeWhile p = u ∧ (u ++ rest).dropWhile p = rest := by
  rw [List.takeWhile_append_of_pos hu, List.dropWhile_append_of_pos hu]
  cases rest with
  | nil => simp
  | cons c rest => simp [hrest c rfl]

/-- Up to the first of an entry. -/
theorem takeWhile_ne_append [DecidableEq α] {u v : List α} (hu : b ∉ u) :
    (u ++ b :: v).takeWhile (· ≠ b) = u ∧ (u ++ b :: v).dropWhile (· ≠ b) = b :: v := by
  apply takeWhile_append_of_head
  · intro c hc
    rw [decide_eq_true_eq]
    rintro rfl
    exact hu hc
  · simp

theorem rdropWhile_of_forall {l : List α} (h : ∀ c ∈ l, p c = false) : l.rdropWhile p = l := by
  apply List.rdropWhile_eq_self_iff.mpr
  intro hne hlast
  rw [h _ (List.getLast_mem hne)] at hlast
  exact Bool.false_ne_true hlast

/-- The parts between the entries with `p`, without the empty ones. -/
def words (p : α → Bool) (text : List α) : List (List α) :=
  (text.splitOnP p).filter fun w => !w.isEmpty

theorem words_map {β : Type*} (p : β → Bool) (f : α → β) (text : List α) :
    words p (text.map f) = (words (fun a => p (f a)) text).map (List.map f) := by
  have hparts : (text.map f).splitOnP p = (text.splitOnP fun a => p (f a)).map (List.map f) := by
    induction text with
    | nil => simp
    | cons a text ih =>
        rw [List.map_cons, List.splitOnP_cons_eq_if_modifyHead,
          List.splitOnP_cons_eq_if_modifyHead, ih]
        split_ifs
        · rfl
        · cases text.splitOnP fun a => p (f a) <;> rfl
  rw [words, words, hparts, List.filter_map]
  simp [Function.comp_def]

theorem words_append_cons (u w : List α) {c : α} (hc : p c) :
    words p (u ++ c :: w) = words p u ++ words p w := by
  rw [words, List.splitOnP_append_cons u w hc, List.filter_append]
  rfl

theorem words_of_forall {w : List α} (hne : w ≠ []) (hw : ∀ c ∈ w, p c = false) :
    words p w = [w] := by
  rw [words, List.splitOnP_eq_singleton hw]
  simp [hne]

theorem words_of_separators {text : List α} (h : ∀ c ∈ text, p c) : words p text = [] := by
  induction text with
  | nil => rfl
  | cons c text ih =>
      rw [List.forall_mem_cons] at h
      rw [← List.nil_append (c :: text), words_append_cons [] text h.1, ih h.2]
      rfl

/-- Words with a separator in front of each. -/
theorem words_flatMap_cons (hb : p b) {ws : List (List α)}
    (h : ∀ w ∈ ws, w ≠ [] ∧ ∀ c ∈ w, p c = false) : words p (ws.flatMap (b :: ·)) = ws := by
  induction ws using List.reverseRecOn with
  | nil => rfl
  | append_singleton ws w ih =>
      rw [List.forall_mem_append, List.forall_mem_singleton] at h
      rw [List.flatMap_append, List.flatMap_singleton, words_append_cons _ w hb, ih h.1,
        words_of_forall h.2.1 h.2.2]

theorem not_of_mem_words {text w : List α} (hw : w ∈ words p text) : ∀ c ∈ w, p c = false := by
  have hparts : ∀ w ∈ text.splitOnP p, ∀ c ∈ w, p c = false := by
    clear hw
    induction text with
    | nil => simp
    | cons d text ih =>
        obtain ⟨u, us, hparts⟩ := List.exists_cons_of_ne_nil (List.splitOnP_ne_nil p text)
        rw [hparts, List.forall_mem_cons] at ih
        rw [List.splitOnP_cons_eq_if_modifyHead, hparts]
        split_ifs with hd
        · simpa using ih
        · simpa [hd] using ih
  exact hparts w (List.mem_of_mem_filter hw)

/-- The words have every entry that is no separator. -/
theorem flatten_words (p : α → Bool) (text : List α) :
    (words p text).flatten = text.filter (!p ·) := by
  rw [words, List.flatten_filter_not_isEmpty]
  induction text with
  | nil => simp
  | cons c text ih =>
      obtain ⟨u, us, hparts⟩ := List.exists_cons_of_ne_nil (List.splitOnP_ne_nil p text)
      rw [List.splitOnP_cons_eq_if_modifyHead, hparts]
      rw [hparts] at ih
      cases hc : p c
      · simpa [hc] using ih
      · simpa [hc] using ih

theorem mem_words_iff {text : List α} {c : α} :
    (∃ w ∈ words p text, c ∈ w) ↔ c ∈ text ∧ p c = false := by
  rw [← List.mem_flatten, flatten_words, List.mem_filter]
  simp

theorem eq_of_sublist_of_length_flatten {us vs : List (List α)} (h : us.Sublist vs)
    (hne : ∀ v ∈ vs, v ≠ []) (hlength : us.flatten.length = vs.flatten.length) : us = vs := by
  induction h with
  | slnil => rfl
  | @cons us vs v h ih =>
      rw [List.forall_mem_cons] at hne
      have hle : us.flatten.length ≤ vs.flatten.length := (List.Sublist.flatten h).length_le
      have hpos : 0 < v.length := List.length_pos_of_ne_nil hne.1
      rw [List.flatten_cons, List.length_append] at hlength
      omega
  | @cons_cons us vs v h ih =>
      rw [List.forall_mem_cons] at hne
      rw [List.flatten_cons, List.flatten_cons, List.length_append, List.length_append] at hlength
      rw [ih hne.2 (by omega)]

/-- Texts without a repetition, as long together as a list with the same members. -/
theorem perm_of_length_flatten [DecidableEq α] {us vs : List (List α)}
    (hnodup : us.Nodup) (hmem : ∀ w, w ∈ us ↔ w ∈ vs) (hne : ∀ v ∈ vs, v ≠ [])
    (hlength : us.flatten.length = vs.flatten.length) : us.Perm vs := by
  have hdedup : us.Perm vs.dedup := by
    rw [List.perm_ext_iff_of_nodup hnodup (List.nodup_dedup vs)]
    simpa using hmem
  have hself : vs.dedup = vs := by
    apply eq_of_sublist_of_length_flatten (List.dedup_sublist vs) hne
    rw [← hlength, hdedup.flatten.length_eq]
  rwa [hself] at hdedup

/-- A word goes on as long as there is no separator. -/
theorem words_append_of_forall {w : List α} (hne : w ≠ []) (hw : ∀ c ∈ w, p c = false)
    (rest : List α) :
    words p (w ++ rest) =
      (w ++ rest.takeWhile (!p ·)) :: words p (rest.dropWhile (!p ·)) := by
  have hlong : ∀ c ∈ w ++ rest.takeWhile (!p ·), p c = false := by
    rw [List.forall_mem_append]
    exact ⟨hw, fun c hc => by simpa using List.mem_takeWhile_imp hc⟩
  have hword := words_of_forall (p := p) (List.append_ne_nil_of_left_ne_nil hne _) hlong
  have hsplit : w ++ rest = (w ++ rest.takeWhile (!p ·)) ++ rest.dropWhile (!p ·) := by
    rw [List.append_assoc, List.takeWhile_append_dropWhile]
  rw [hsplit]
  cases hdrop : rest.dropWhile (!p ·) with
  | nil => rw [List.append_nil, hword]; rfl
  | cons d v =>
      have hd : p d := by
        have hfirst := List.head_dropWhile_not (!p ·) (l := rest) (by simp [hdrop])
        simpa [hdrop] using hfirst
      have hrest : words p (d :: v) = words p v := words_append_cons [] v hd
      rw [words_append_cons _ v hd, hword, hrest]
      rfl

theorem words_append_of_separators {s : List α} (hs : ∀ c ∈ s, p c) (rest : List α) :
    words p (s ++ rest) = words p rest := by
  induction s with
  | nil => rfl
  | cons c s ih =>
      rw [List.forall_mem_cons] at hs
      rw [List.cons_append, ← List.nil_append (c :: (s ++ rest)), words_append_cons [] _ hs.1,
        ih hs.2]
      rfl

/-- A text that starts with a word goes on with separators, and then with a word again. -/
theorem exists_word {text : List α} (hne : text ≠ []) (hhead : ∀ c ∈ text.head?, p c = false) :
    ∃ w s rest, text = w ++ (s ++ rest) ∧ w ≠ [] ∧ (∀ c ∈ w, p c = false) ∧ (∀ c ∈ s, p c) ∧
      (∀ c ∈ rest.head?, p c = false) ∧ (s = [] → rest = []) ∧
      words p text = w :: words p rest := by
  have hwne : text.takeWhile (!p ·) ≠ [] := by
    obtain ⟨c, text, rfl⟩ := List.exists_cons_of_ne_nil hne
    simp [hhead c rfl]
  have hw : ∀ c ∈ text.takeWhile (!p ·), p c = false :=
    fun c hc => by simpa using List.mem_takeWhile_imp hc
  have hsplit : text = text.takeWhile (!p ·) ++ text.dropWhile (!p ·) :=
    List.takeWhile_append_dropWhile.symm
  cases hdrop : text.dropWhile (!p ·) with
  | nil =>
      rw [hdrop, List.append_nil] at hsplit
      refine ⟨text, [], [], by simp, hne, hsplit ▸ hw, by simp, by simp, fun _ => rfl, ?_⟩
      rw [words_of_forall hne (hsplit ▸ hw)]
      rfl
  | cons d v =>
      have hd : p d := by
        have hfirst := List.head_dropWhile_not (!p ·) (l := text) (by simp [hdrop])
        simpa [hdrop] using hfirst
      rw [hdrop] at hsplit
      refine ⟨text.takeWhile (!p ·), d :: v.takeWhile p, v.dropWhile p, ?_, hwne, hw, ?_, ?_, ?_,
        ?_⟩
      · rw [List.cons_append, List.takeWhile_append_dropWhile, ← hsplit]
      · rw [List.forall_mem_cons]
        exact ⟨hd, fun c hc => List.mem_takeWhile_imp hc⟩
      · intro c hc
        have hfirst := List.head?_dropWhile_not p v
        rw [hc] at hfirst
        simpa using hfirst
      · intro hnil
        cases hnil
      · have hv : words p v = words p (v.dropWhile p) := by
          have hgap : ∀ c ∈ v.takeWhile p, p c := fun c hc => List.mem_takeWhile_imp hc
          rw [← words_append_of_separators hgap (v.dropWhile p), List.takeWhile_append_dropWhile]
        have hwords := words_append_cons (text.takeWhile (!p ·)) v hd
        rwa [← hsplit, words_of_forall hwne hw, hv] at hwords

/-- The first word of a text with separators around it. -/
theorem exists_of_words_eq_cons {text w : List α} {ws : List (List α)}
    (h : words p text = w :: ws) :
    ∃ s₀ s rest, text = s₀ ++ (w ++ (s ++ rest)) ∧ (∀ c ∈ s₀, p c) ∧ (∀ c ∈ w, p c = false) ∧
      (∀ c ∈ s, p c) ∧ (s = [] → rest = []) ∧ words p rest = ws := by
  have hgap : ∀ c ∈ text.takeWhile p, p c := fun c hc => List.mem_takeWhile_imp hc
  have hsplit : text = text.takeWhile p ++ text.dropWhile p :=
    List.takeWhile_append_dropWhile.symm
  have hwords : words p (text.dropWhile p) = w :: ws := by
    rw [← h, ← words_append_of_separators hgap, ← hsplit]
  have hne : text.dropWhile p ≠ [] := by
    intro hnil
    rw [hnil] at hwords
    cases hwords
  have hhead : ∀ c ∈ (text.dropWhile p).head?, p c = false := by
    intro c hc
    have hfirst := List.head?_dropWhile_not p text
    rw [hc] at hfirst
    simpa using hfirst
  obtain ⟨w', s, rest, hrest, -, hw, hs, -, hnil, hcons⟩ := exists_word hne hhead
  obtain ⟨rfl, rfl⟩ := List.cons.inj (hwords.symm.trans hcons)
  exact ⟨text.takeWhile p, s, rest, by rw [← hrest, ← hsplit], hgap, hw, hs, hnil, rfl⟩

/-- The last word of a text goes on if the text does. -/
theorem words_append_of_getLast {u : List α} (hne : u ≠ []) (hlast : p (u.getLast hne) = false) :
    ∃ ws w, w ≠ [] ∧ w <:+ u ∧ words p u = ws ++ [w] ∧ ∀ v, words p (u ++ v) =
      ws ++ (w ++ v.takeWhile (!p ·)) :: words p (v.dropWhile (!p ·)) := by
  have hwne : u.rtakeWhile (!p ·) ≠ [] := by
    rw [Ne, List.rtakeWhile_eq_nil_iff]
    intro h
    simp [hlast] at h
    exact hne h
  have hw : ∀ c ∈ u.rtakeWhile (!p ·), p c = false :=
    fun c hc => by simpa using List.mem_rtakeWhile_imp hc
  -- the part in front of the last word is empty or ends with a separator
  have hfront (v : List α) : words p (u ++ v) =
      words p (u.rdropWhile (!p ·)) ++ words p (u.rtakeWhile (!p ·) ++ v) := by
    have hsplit : u ++ v = u.rdropWhile (!p ·) ++ (u.rtakeWhile (!p ·) ++ v) := by
      rw [← List.append_assoc, List.rdropWhile_append_rtakeWhile]
    rw [hsplit]
    have hend := List.rdropWhile_last_not (!p ·) u
    rcases List.eq_nil_or_concat (u.rdropWhile (!p ·)) with hnil | ⟨u', d, hconcat⟩
    · rw [hnil]
      rfl
    · rw [List.concat_eq_append] at hconcat
      have hd : p d := by
        have hd' := hend (by simp [hconcat])
        simpa [hconcat] using hd'
      rw [hconcat, List.append_assoc, List.singleton_append, words_append_cons u' _ hd,
        words_append_cons u' [] hd]
      simp [words]
  refine ⟨words p (u.rdropWhile (!p ·)), u.rtakeWhile (!p ·), hwne,
    List.rtakeWhile_suffix _ u, ?_, ?_⟩
  · have hself := hfront []
    rwa [List.append_nil, List.append_nil, words_of_forall hwne hw] at hself
  · intro v
    rw [hfront v, words_append_of_forall hwne hw]

/-- Behind a separator, an entry is a word of its own. -/
theorem words_concat_of_separator {u : List α} {x : α} (hlast : ∀ c ∈ u.getLast?, p c)
    (hx : p x = false) : words p (u ++ [x]) = words p u ++ [[x]] := by
  have hword : words p [x] = [[x]] :=
    words_of_forall (List.cons_ne_nil x []) (List.forall_mem_singleton.mpr hx)
  rcases List.eq_nil_or_concat u with rfl | ⟨v, d, rfl⟩
  · exact hword
  · rw [List.concat_eq_append] at hlast ⊢
    have hd : p d := hlast d (by simp)
    rw [List.append_assoc, List.singleton_append, words_append_cons v _ hd,
      words_append_cons v [] hd, hword]
    exact congrArg (· ++ [[x]]) (List.append_nil _).symm

/-- Otherwise it is the end of the last word. -/
theorem exists_words_concat {u : List α} {c x : α} (hc : u.getLast? = some c) (hpc : p c = false)
    (hx : p x = false) :
    ∃ ws w, w ≠ [] ∧ w <:+ u ∧ words p u = ws ++ [w] ∧ words p (u ++ [x]) = ws ++ [w ++ [x]] := by
  obtain ⟨v, rfl⟩ := List.getLast?_eq_some_iff.mp hc
  obtain ⟨ws, w, hne, hsuffix, hwords, happend⟩ :=
    words_append_of_getLast (u := v ++ [c]) (by simp) (by simpa using hpc)
  refine ⟨ws, w, hne, hsuffix, hwords, ?_⟩
  rw [happend, List.takeWhile_cons_of_pos (by simp [hx]),
    List.dropWhile_cons_of_pos (by simp [hx])]
  rfl

theorem mem_intercalate_iff {c : α} {ws : List (List α)} (hne : c ≠ b) :
    c ∈ [b].intercalate ws ↔ ∃ w ∈ ws, c ∈ w := by
  induction ws with
  | nil => simp
  | cons w ws ih =>
      cases ws with
      | nil => rw [List.intercalate_singleton]; simp
      | cons w' ws =>
          rw [List.intercalate_cons_cons, List.append_assoc, List.mem_append, List.mem_append, ih]
          simp [hne]

theorem not_mem_intercalate {c : α} {ws : List (List α)} (hne : c ≠ b) (h : ∀ w ∈ ws, c ∉ w) :
    c ∉ [b].intercalate ws := by
  rw [mem_intercalate_iff hne]
  rintro ⟨w, hw, hmem⟩
  exact h w hw hmem

/-- Every separator is `b` and stands alone between other entries. -/
@[mk_iff]
structure Spaced (p : α → Bool) (b : α) (text : List α) : Prop where
  only : ∀ c ∈ text, p c → c = b
  apart : text.IsChain fun c d => ¬(p c ∧ p d)
  head : ∀ c ∈ text.head?, p c = false
  last : ∀ c ∈ text.getLast?, p c = false

instance [DecidableEq α] (text : List α) : Decidable (Spaced p b text) :=
  decidable_of_iff' _ (spaced_iff p b text)

/-- Lone separators stay so between two texts without any. -/
theorem spaced_between {u v value : List α} (hu : u ≠ []) (hfront : ∀ c ∈ u, p c = false)
    (hv : v ≠ []) (hback : ∀ c ∈ v, p c = false) (honly : ∀ c ∈ value, p c → c = b)
    (hapart : value.IsChain fun c d => ¬(p c ∧ p d)) : Spaced p b (u ++ value ++ v) := by
  have hchain {w : List α} (hw : ∀ c ∈ w, p c = false) : w.IsChain fun c d => ¬(p c ∧ p d) := by
    apply List.Pairwise.isChain
    apply List.pairwise_of_forall_mem_list
    intro c hc d _ hboth
    simp [hw c hc] at hboth
  constructor
  · intro c hc hp
    rcases List.mem_append.mp hc with hc | hc
    · rcases List.mem_append.mp hc with hc | hc
      · simp [hfront c hc] at hp
      · exact honly c hc hp
    · simp [hback c hc] at hp
  · refine List.isChain_append.mpr ⟨List.isChain_append.mpr ⟨hchain hfront, hapart, ?_⟩,
      hchain hback, ?_⟩
    · intro c hc d _ hboth
      simp [hfront c (List.mem_of_mem_getLast? hc)] at hboth
    · intro c _ d hd hboth
      simp [hback d (List.mem_of_mem_head? hd)] at hboth
  · intro c hc
    rw [List.append_assoc, List.head?_append_of_ne_nil _ hu] at hc
    exact hfront c (List.mem_of_mem_head? hc)
  · intro c hc
    rw [List.getLast?_append_of_ne_nil _ hv] at hc
    exact hback c (List.mem_of_mem_getLast? hc)

theorem exists_first_separator {text : List α} (hsep : ∃ c ∈ text, p c) :
    ∃ u d w, text = u ++ d :: w ∧ p d ∧ ∀ c ∈ u, p c = false := by
  obtain ⟨c, hc, hp⟩ := hsep
  have hne : text.dropWhile (fun c => !p c) ≠ [] := by
    intro hnil
    have hall := List.dropWhile_eq_nil_iff.mp hnil c hc
    simp [hp] at hall
  obtain ⟨d, w, hdrop⟩ := List.exists_cons_of_ne_nil hne
  have hd : p d := by
    have hfirst := List.head_dropWhile_not (fun c => !p c) hne
    simpa [hdrop] using hfirst
  refine ⟨text.takeWhile fun c => !p c, d, w, ?_, hd, ?_⟩
  · rw [← hdrop, List.takeWhile_append_dropWhile]
  · intro c hc
    simpa using List.mem_takeWhile_imp hc

/-- What comes after a separator is spaced again. -/
theorem Spaced.of_append_cons {u w : List α} (h : Spaced p b (u ++ b :: w)) (hb : p b) :
    Spaced p b w := by
  constructor
  · intro c hc
    exact h.only c (List.mem_append_right u (List.mem_cons_of_mem b hc))
  · exact h.apart.right_of_append.tail
  · intro c hc
    have hnext := (List.isChain_cons.mp h.apart.right_of_append).1 c hc
    simpa [hb] using hnext
  · intro c hc
    apply h.last c
    rw [List.getLast?_append_cons, List.getLast?_cons, hc]
    rfl

/-- A text with separators is a word, one separator and the rest. -/
theorem Spaced.exists_cons {text : List α} (h : Spaced p b text) (hsep : ∃ c ∈ text, p c) :
    ∃ u w, text = u ++ b :: w ∧ p b ∧ u ≠ [] ∧ (∀ c ∈ u, p c = false) ∧ Spaced p b w := by
  obtain ⟨u, d, w, rfl, hd, hbefore⟩ := exists_first_separator hsep
  obtain rfl := h.only d (List.mem_append_right u List.mem_cons_self) hd
  refine ⟨u, w, rfl, hd, ?_, hbefore, h.of_append_cons hd⟩
  rintro rfl
  have hhead := h.head d rfl
  simp [hd] at hhead

/-- The words with one separator between them are the text again. -/
theorem Spaced.intercalate_words {text : List α} (h : Spaced p b text) (hne : text ≠ []) :
    [b].intercalate (words p text) = text := by
  induction hn : text.length using Nat.strong_induction_on generalizing text with
  | _ n ih =>
      by_cases hsep : ∃ c ∈ text, p c
      · obtain ⟨u, w, rfl, hb, hu, hbefore, hw⟩ := h.exists_cons hsep
        have hwne : w ≠ [] := by
          rintro rfl
          have hlast := h.last b (by simp)
          simp [hb] at hlast
        have hrest := ih w.length (by simp at hn; omega) hw hwne rfl
        have hwords : words p w ≠ [] := by
          intro hnil
          rw [hnil] at hrest
          exact hwne hrest.symm
        rw [words_append_cons u w hb, words_of_forall hu hbefore, List.singleton_append,
          List.intercalate_cons_of_ne_nil hwords, hrest, List.append_assoc]
        rfl
      · have hall : ∀ c ∈ text, p c = false := by
          intro c hc
          by_contra hp
          exact hsep ⟨c, hc, by simpa using hp⟩
        rw [words_of_forall hne hall, List.intercalate_singleton]

/-! ## Fields -/

/-- The first `n` words and what is left after them, without the separators around it. -/
def readFields (p : α → Bool) : ℕ → List α → List (List α)
  | 0, text => [(text.dropWhile p).rdropWhile p]
  | n + 1, text =>
      let rest := text.dropWhile p
      rest.takeWhile (!p ·) :: readFields p n (rest.dropWhile (!p ·))

theorem head?_not {w : List α} (hw : ∀ c ∈ w, p c = false) : ∀ c ∈ w.head?, p c = false :=
  fun c hc => hw c (List.mem_of_mem_head? hc)

theorem readFields_zero {gap w : List α} (hgap : ∀ c ∈ gap, p c) (hw : ∀ c ∈ w, p c = false) :
    readFields p 0 (gap ++ w) = [w] := by
  rw [readFields, (takeWhile_append_of_head hgap (head?_not hw)).2, rdropWhile_of_forall hw]

theorem readFields_succ {n : ℕ} {gap w rest : List α} (hgap : ∀ c ∈ gap, p c) (hne : w ≠ [])
    (hw : ∀ c ∈ w, p c = false) (hrest : ∀ c ∈ rest.head?, p c) :
    readFields p (n + 1) (gap ++ (w ++ rest)) = w :: readFields p n rest := by
  have hhead : ∀ c ∈ (w ++ rest).head?, p c = false := by
    rw [List.head?_append_of_ne_nil _ hne]
    exact head?_not hw
  have hword : (w ++ rest).takeWhile (!p ·) = w ∧ (w ++ rest).dropWhile (!p ·) = rest :=
    takeWhile_append_of_head (fun c hc => by simp [hw c hc]) (fun c hc => by simp [hrest c hc])
  rw [readFields, (takeWhile_append_of_head hgap hhead).2, hword.1, hword.2]

theorem readFields_first {n : ℕ} {w rest : List α} (hne : w ≠ []) (hw : ∀ c ∈ w, p c = false)
    (hrest : ∀ c ∈ rest.head?, p c) :
    readFields p (n + 1) (w ++ rest) = w :: readFields p n rest :=
  readFields_succ (List.forall_mem_nil (p ·)) hne hw hrest

theorem readFields_next {n : ℕ} {w rest : List α} (hb : p b) (hne : w ≠ [])
    (hw : ∀ c ∈ w, p c = false) (hrest : ∀ c ∈ rest.head?, p c) :
    readFields p (n + 1) (b :: (w ++ rest)) = w :: readFields p n rest :=
  readFields_succ (List.forall_mem_singleton.mpr hb) hne hw hrest

theorem readFields_map {β : Type*} (p : β → Bool) (f : α → β) (n : ℕ) (text : List α) :
    readFields p n (text.map f) = (readFields (fun a => p (f a)) n text).map (List.map f) := by
  induction n generalizing text with
  | zero =>
      simp only [readFields, List.dropWhile_map, List.rdropWhile, ← List.map_reverse]
      rfl
  | succ n ih =>
      simp only [readFields, List.dropWhile_map, List.takeWhile_map, List.map_cons, ih]
      rfl

end AutotestClient.Shared
