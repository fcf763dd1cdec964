import AutotestClient.Model.Tsc
import Mathlib.Data.List.DropRight

/-! # Stripping and matching texts -/

namespace AutotestClient.Tsc

open Shared (takeWhile_append_of_head)

/-! ## Patterns -/

theorem afterText_append (part text : List Char) : afterText part (part ++ text) = some text := by
  simp [afterText]

theorem afterSome_append {p : Char → Bool} {u rest : List Char} (hne : u ≠ [])
    (hu : ∀ c ∈ u, p c) (hrest : ∀ c ∈ rest.head?, p c = false) :
    afterSome p (u ++ rest) = some rest := by
  obtain ⟨htake, hdrop⟩ := takeWhile_append_of_head hu hrest
  rw [afterSome, htake, hdrop, if_neg hne]

/-! ## White space around a text -/

theorem pyStrip_eq_self_iff {p : Char → Bool} {text : List Char} :
    pyStrip p text = text ↔ (∀ c ∈ text.head?, p c = false) ∧ ∀ c ∈ text.getLast?, p c = false := by
  show (text.dropWhile p).rdropWhile p = text ↔ _
  cases text with
  | nil => simp
  | cons c text =>
      cases hc : p c with
      | true =>
          have hshort : (((c :: text).dropWhile p).rdropWhile p).length ≤ text.length := by
            rw [List.dropWhile_cons_of_pos hc]
            exact (List.rdropWhile_prefix p _).length_le.trans (List.dropWhile_suffix p).length_le
          constructor
          · intro heq
            rw [heq, List.length_cons] at hshort
            omega
          · intro h
            have hhead := h.1 c rfl
            rw [hc] at hhead
            cases hhead
      | false =>
          rw [List.dropWhile_cons_of_neg (by simp [hc]), List.rdropWhile_eq_self_iff]
          simp [hc, List.getLast?_eq_some_getLast]

theorem pyStrip_eq_nil_iff {p : Char → Bool} {text : List Char} :
    pyStrip p text = [] ↔ ∀ c ∈ text, p c := by
  show (text.dropWhile p).rdropWhile p = [] ↔ _
  rw [List.rdropWhile_eq_nil_iff]
  constructor
  · intro h c hc
    have hnil : text.dropWhile p = [] := by
      by_contra hne
      have hhead := List.head_dropWhile_not p hne
      rw [h _ (List.head_mem hne)] at hhead
      cases hhead
    exact List.dropWhile_eq_nil_iff.mp hnil c hc
  · intro h c hc
    exact h c ((List.dropWhile_suffix p).subset hc)

theorem pyStrip_concat {p : Char → Bool} {c : Char} (hc : p c) (text : List Char) :
    pyStrip p (text ++ [c]) = pyStrip p text := by
  show ((text ++ [c]).dropWhile p).rdropWhile p = (text.dropWhile p).rdropWhile p
  rw [List.dropWhile_append]
  split_ifs with hempty
  · rw [List.isEmpty_iff.mp hempty, List.dropWhile_cons_of_pos hc]
    rfl
  · rw [List.rdropWhile_concat_pos p _ c hc]

/-- Only what is to be stripped is lost. -/
theorem mem_pyStrip {p : Char → Bool} {c : Char} {text : List Char} (hc : p c = false)
    (hmem : c ∈ text) : c ∈ pyStrip p text := by
  have hkept {l : List Char} (hl : c ∈ l) : c ∈ l.dropWhile p := by
    rw [← List.takeWhile_append_dropWhile (p := p) (l := l), List.mem_append] at hl
    refine hl.resolve_left fun htake => ?_
    rw [List.mem_takeWhile_imp htake] at hc
    cases hc
  rw [pyStrip, List.mem_reverse]
  exact hkept (List.mem_reverse.mpr (hkept hmem))

theorem pyStrip_isInfix (p : Char → Bool) (text : List Char) : pyStrip p text <:+: text := by
  have hsuffix : (text.dropWhile p).reverse.dropWhile p <:+ (text.dropWhile p).reverse :=
    List.dropWhile_suffix p
  rw [← List.reverse_prefix, List.reverse_reverse] at hsuffix
  exact hsuffix.isInfix.trans (List.dropWhile_suffix p).isInfix

theorem pyStrip_around {p : Char → Bool} {u core v : List Char} (hu : ∀ c ∈ u, p c) (hne : core ≠ [])
    (hhead : ∀ c ∈ core.head?, p c = false) (hlast : ∀ c ∈ core.getLast?, p c = false)
    (hv : ∀ c ∈ v, p c) : pyStrip p (u ++ (core ++ v)) = core := by
  have hfront : ∀ c ∈ (core ++ v).head?, p c = false := by
    rwa [List.head?_append_of_ne_nil _ hne]
  have hback : ∀ c ∈ core.reverse.head?, p c = false := by
    rwa [List.head?_reverse]
  have hv' : ∀ c ∈ v.reverse, p c := fun c hc => hv c (List.mem_reverse.mp hc)
  rw [pyStrip, (takeWhile_append_of_head hu hfront).2, List.reverse_append,
    (takeWhile_append_of_head hv' hback).2, List.reverse_reverse]

end AutotestClient.Tsc
