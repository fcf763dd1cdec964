import AutotestClient.Model.Harness.Arrays
import AutotestClient.Shared.Machine

/-! # The array functions against a sequence

A value goes through `eval` on its way in and through unquoted expansions on its way out, and in
`tc_array_dequeue` all values do. Where each of these leaves the value alone, the array is the
sequence of the values pushed and not yet removed. -/

namespace AutotestClient.Harness

open Shared

/-! ## The sequence -/

/-- The calls on a list: append, drop the last, drop the first. -/
def sequenceCall (l : List (List Char)) : ArrayCall → List (List Char) × ArrayReply
  | .push value => (l ++ [value], .silent)
  | .enqueue value => (l ++ [value], .silent)
  | .pop => (l.dropLast, .silent)
  | .dequeue => (l.tail, .silent)
  | .top => (l, .echoed ((l.getLast?.map (· ++ ['\n'])).getD []))
  | .next => (l, .echoed ((l.head?.map (· ++ ['\n'])).getD []))
  | .size => (l, .echoed (printInt l.length ++ ['\n']))
  | .isEmpty => (l, .status l.isEmpty)

/-- The functions and the list side by side, both empty at first. -/
def arrayMachine (sh : Shell) (name : Name) :
    Machine (BashArray × List (List Char)) ArrayCall where
  init := (.ofWords [], [])
  step s call :=
    (arrayCall sh name s.1 call).map fun r => (r.1, (sequenceCall s.2 call).1)

/-! ## Values that survive -/

/-- Nothing in the value has a meaning inside double quotes. -/
@[mk_iff]
structure Literal (value : List Char) : Prop where
  quote : '"' ∉ value
  backtick : '`' ∉ value
  pairs : (value ++ ['"']).IsChain fun c d =>
    ¬(c = '\\' ∧ isEscapable d) ∧ ¬(c = '$' ∧ startsExpansion d)

/-- A value that `tc_array_push` stores as it is: blanks are single spaces, and the words of the
assignment name no files. -/
@[mk_iff]
structure Storable (sh : Shell) (name : Name) (value : List Char) : Prop where
  literal : Literal value
  spaces : ∀ c ∈ value, isBlank c → c = ' '
  apart : value.IsChain fun c d => ¬(isBlank c ∧ isBlank d)
  names : ∀ w ∈ words isBlank (pushTarget name ++ value ++ ['"']), sh.glob w = [w]

/-- A value that `echo` shows as it is. -/
@[mk_iff]
structure Showable (sh : Shell) (value : List Char) : Prop where
  nonempty : value ≠ []
  spaced : Spaced isBlank ' ' value
  names : ∀ w ∈ words isBlank value, sh.glob w = [w]
  option : ∀ w ∈ (words isBlank value).head?, isEchoOption w = false

/-- A value that is one word without quotes, too. -/
@[mk_iff]
structure OneWord (sh : Shell) (value : List Char) : Prop where
  nonempty : value ≠ []
  blank : ∀ c ∈ value, isBlank c = false
  names : sh.glob value = [value]

instance (value : List Char) : Decidable (Literal value) :=
  decidable_of_iff' _ (literal_iff value)

instance (sh : Shell) (name : Name) (value : List Char) : Decidable (Storable sh name value) :=
  haveI : Decidable (∀ c ∈ value, isBlank c → c = ' ') :=
    List.decidableBAll (fun c => isBlank c → c = ' ') value
  decidable_of_iff' _ (storable_iff sh name value)

instance (sh : Shell) (value : List Char) : Decidable (Showable sh value) :=
  decidable_of_iff' _ (showable_iff sh value)

instance (sh : Shell) (value : List Char) : Decidable (OneWord sh value) :=
  haveI : Decidable (∀ c ∈ value, isBlank c = false) :=
    List.decidableBAll (fun c => isBlank c = false) value
  decidable_of_iff' _ (oneWord_iff sh value)

/-- No file has a name that the word is a pattern for. -/
def Kept (sh : Shell) (word : List Char) : Prop := sh.glob word = [word]

instance (sh : Shell) (word : List Char) : Decidable (Kept sh word) :=
  inferInstanceAs (Decidable (_ = _))

/-- When a call does to an array what it does to a list. -/
def Safe (sh : Shell) (name : Name) (a : BashArray) : ArrayCall → Prop
  | .push value => Kept sh (sizeWord name) ∧ Storable sh name value
  | .enqueue value => Kept sh (sizeWord name) ∧ Storable sh name value
  | .pop => Kept sh (popTarget name) ∧ (a.size ≠ 0 → popWord name a ∈ sh.glob (popWord name a))
  | .dequeue => Kept sh (sizeWord name) ∧ (a.size ≠ 0 → Kept sh (dequeueWord name)) ∧
      ∀ value ∈ a.valuesFrom 1, OneWord sh value
  | .top => Kept sh (sizeWord name) ∧
      (a.size ≠ 0 → Kept sh (topWord name) ∧ Showable sh (a.get (a.size - 1)))
  | .next => Kept sh (sizeWord name) ∧
      (a.size ≠ 0 → Kept sh (nextWord name) ∧ Showable sh (a.get 0))
  | .size => Kept sh (sizeWord name)
  | .isEmpty => Kept sh (sizeWord name)

instance (sh : Shell) (name : Name) (a : BashArray) : DecidablePred (Safe sh name a)
  | .push _ => inferInstanceAs (Decidable (_ ∧ _))
  | .enqueue _ => inferInstanceAs (Decidable (_ ∧ _))
  | .pop => inferInstanceAs (Decidable (_ ∧ _))
  | .dequeue =>
      haveI : Decidable (∀ value ∈ a.valuesFrom 1, OneWord sh value) :=
        List.decidableBAll (fun value => OneWord sh value) (a.valuesFrom 1)
      inferInstanceAs (Decidable (_ ∧ (_ → _) ∧ _))
  | .top => inferInstanceAs (Decidable (_ ∧ (_ → _)))
  | .next => inferInstanceAs (Decidable (_ ∧ (_ → _)))
  | .size => inferInstanceAs (Decidable (Kept sh (sizeWord name)))
  | .isEmpty => inferInstanceAs (Decidable (Kept sh (sizeWord name)))

/-! ## Expansion -/

theorem Shell.split_of_names {sh : Shell} {text : List Char}
    (h : ∀ w ∈ words isBlank text, sh.glob w = [w]) : sh.split text = words isBlank text := by
  rw [Shell.split, List.flatMap_congr h]
  exact List.flatMap_singleton' _

theorem Kept.command_eq {sh : Shell} {word : List Char} (h : Kept sh word) :
    sh.command word = word := by
  rw [Shell.command, h, List.intercalate_singleton]

theorem Kept.evalSize_eq {sh : Shell} {name : Name} (h : Kept sh (sizeWord name)) (a : BashArray) :
    evalSize sh name a = (a, some a.size) := by
  simp only [evalSize, h.command_eq, if_true]

theorem OneWord.split_eq {sh : Shell} {value : List Char} (h : OneWord sh value) :
    sh.split value = [value] := by
  have hwords := words_of_forall h.nonempty h.blank
  rw [Shell.split_of_names, hwords]
  rw [hwords]
  intro w hw
  rw [List.mem_singleton.mp hw, h.names]

/-- The words come back joined by single spaces, which is how they stood. -/
theorem Shell.evalText_eq {sh : Shell} {text : List Char} (hne : text ≠ [])
    (hspaced : Spaced isBlank ' ' text) (hnames : ∀ w ∈ words isBlank text, sh.glob w = [w]) :
    sh.evalText text = text := by
  rw [Shell.evalText, Shell.split_of_names hnames, hspaced.intercalate_words hne]

theorem Shell.echo_cons {sh : Shell} {w : List Char} {ws : List (List Char)}
    (h : isEchoOption w = false) : sh.echo (w :: ws) = [' '].intercalate (w :: ws) ++ ['\n'] := by
  have hoption : ¬isEchoOption w = true := by simp [h]
  rw [Shell.echo, List.takeWhile_cons_of_neg hoption, List.dropWhile_cons_of_neg hoption]
  rfl

theorem Showable.echo_split {sh : Shell} {value : List Char} (h : Showable sh value) :
    sh.echo (sh.split value) = value ++ ['\n'] := by
  have htext := h.spaced.intercalate_words h.nonempty
  rw [Shell.split_of_names h.names]
  cases hwords : words isBlank value with
  | nil =>
      rw [hwords] at htext
      exact absurd htext.symm h.nonempty
  | cons w ws =>
      rw [Shell.echo_cons (h.option w (by simp [hwords])), ← hwords, htext]

theorem Showable.evalEcho_eq {sh : Shell} {word value : List Char} (h : Showable sh value)
    (hkept : Kept sh word) (a : BashArray) :
    evalEcho sh word value a = (a, value ++ ['\n']) := by
  simp only [evalEcho, hkept.command_eq, if_true, h.echo_split]

theorem readQuoted_cons {c d : Char} {rest : List Char} (hquote : c ≠ '"') (htick : c ≠ '`')
    (hescape : c = '\\' → isEscapable d = false ∧ d ≠ '\n')
    (hexpand : c = '$' → startsExpansion d = false) :
    readQuoted (c :: d :: rest) = (readQuoted (d :: rest)).map (c :: ·) := by
  by_cases hc : c = '\\'
  · subst hc
    obtain ⟨hd, hline⟩ := hescape rfl
    rw [readQuoted, hd, if_neg (by decide), if_neg hline]
  · by_cases hc' : c = '$'
    · subst hc'
      rw [readQuoted, hexpand rfl, if_neg (by decide)]
    · rw [readQuoted]
      all_goals simp_all

theorem readQuoted_literal {value : List Char} (h : Literal value) (hline : '\n' ∉ value) :
    readQuoted (value ++ ['"']) = some value := by
  induction value with
  | nil => rfl
  | cons c value ih =>
      obtain ⟨hquote, htick, hpairs⟩ := h
      rw [List.mem_cons, not_or] at hquote htick hline
      rw [List.cons_append] at hpairs ⊢
      have hrest := ih ⟨hquote.2, htick.2, hpairs.tail⟩ hline.2
      obtain ⟨d, rest, hd⟩ := List.exists_cons_of_ne_nil (List.concat_ne_nil '"' value)
      have hmem : d ∈ value ++ ['"'] := hd ▸ List.mem_cons_self
      rw [hd] at hpairs hrest ⊢
      obtain ⟨hescape, hexpand⟩ := (List.isChain_cons_cons.mp hpairs).1
      have hnewline : d ≠ '\n' := by
        rintro rfl
        simp [hline.2] at hmem
      rw [readQuoted_cons (Ne.symm hquote.1) (Ne.symm htick.1), hrest, Option.map_some]
      · intro hc
        exact ⟨by simpa [hc] using hescape, hnewline⟩
      · intro hc
        simpa [hc] using hexpand

theorem not_blank_of_name {c : Char} (hc : c.isAlphanum || c = '_') : isBlank c = false := by
  by_contra hblank
  simp only [isBlank, Bool.not_eq_false, Bool.or_eq_true, decide_eq_true_eq] at hblank
  rcases hblank with (rfl | rfl) | rfl
  all_goals exact absurd hc (by decide)

theorem not_blank_pushTarget (name : Name) : ∀ c ∈ pushTarget name, isBlank c = false := by
  have hbracket : "[tc_size]=\"".toList.all (fun c => !isBlank c) := by decide
  intro c hc
  rcases List.mem_append.mp hc with hc | hc
  · exact not_blank_of_name (List.all_eq_true.mp name.valid.2 c hc)
  · simpa using List.all_eq_true.mp hbracket c hc

theorem Storable.evalText_eq {sh : Shell} {name : Name} {value : List Char}
    (h : Storable sh name value) :
    sh.evalText (pushTarget name ++ value ++ ['"']) = pushTarget name ++ value ++ ['"'] := by
  apply Shell.evalText_eq (by simp) _ h.names
  apply spaced_between _ (not_blank_pushTarget name) (by simp) (List.forall_mem_singleton.mpr rfl)
    h.spaces h.apart
  simp [pushTarget]

theorem Storable.push_eq {sh : Shell} {name : Name} {value : List Char}
    (h : Storable sh name value) (hkept : Kept sh (sizeWord name)) (hne : value ≠ [])
    (a : BashArray) : tcArrayPush sh name value a = some (a.set a.size value) := by
  have hline : '\n' ∉ value := by
    intro hmem
    exact absurd (h.spaces '\n' hmem (by decide)) (by decide)
  have hread : (if pushTarget name <+: pushTarget name ++ value ++ ['"'] then
      readQuoted ((pushTarget name ++ value ++ ['"']).drop (pushTarget name).length)
      else none) = some value := by
    rw [List.append_assoc, if_pos (List.prefix_append _ _), List.drop_left,
      readQuoted_literal h.literal hline]
  rw [tcArrayPush, if_neg hne]
  simp only [hkept.evalSize_eq, h.evalText_eq, hread, Option.getD_some]

/-! ## Arrays without gaps -/

@[simp] theorem size_ofWords (l : List (List Char)) : (BashArray.ofWords l).size = l.length := by
  simp [BashArray.size, BashArray.ofWords]

theorem get_ofWords (l : List (List Char)) (i : ℕ) :
    (BashArray.ofWords l).get i = l[i]?.getD [] := by
  have hfind (k : ℕ) (l : List (List Char)) (i : ℕ) :
      ((l.zipIdx k).find? fun e => e.2 = k + i).map Prod.fst = l[i]? := by
    induction l generalizing k i with
    | nil => rfl
    | cons v l ih =>
        cases i with
        | zero => simp
        | succ i =>
            have hrest := ih (k + 1) i
            rw [Nat.add_right_comm, Nat.add_assoc] at hrest
            simpa using hrest
  have h := hfind 0 l i
  rw [Nat.zero_add] at h
  rw [BashArray.get, BashArray.entries_ofWords, h]

theorem valuesFrom_ofWords (l : List (List Char)) :
    (BashArray.ofWords l).valuesFrom 1 = l.tail := by
  cases l with
  | nil => rfl
  | cons v l =>
      have hall : (l.zipIdx 1).filter (fun e => 1 ≤ e.2) = l.zipIdx 1 := by
        apply List.filter_eq_self.mpr
        intro e he
        simpa using List.le_snd_of_mem_zipIdx he
      rw [BashArray.valuesFrom, BashArray.entries_ofWords, List.zipIdx_cons,
        List.filter_cons_of_neg (by simp), hall, List.zipIdx_map_fst, List.tail_cons]

theorem set_ofWords (l : List (List Char)) (value : List Char) :
    (BashArray.ofWords l).set l.length value = .ofWords (l ++ [value]) := by
  have hlt : ∀ e ∈ l.zipIdx, e.2 < l.length := by
    intro e he
    simpa using List.snd_lt_of_mem_zipIdx he
  have hbelow : l.zipIdx.filter (fun e => e.2 < l.length) = l.zipIdx :=
    List.filter_eq_self.mpr fun e he => by simpa using hlt e he
  have habove : l.zipIdx.filter (fun e => l.length < e.2) = [] :=
    List.filter_eq_nil_iff.mpr fun e he => by simpa using (hlt e he).le
  ext1
  rw [BashArray.entries_set, BashArray.entries_ofWords, BashArray.entries_ofWords, hbelow, habove,
    List.zipIdx_append]
  simp

theorem unset_ofWords (l : List (List Char)) :
    (BashArray.ofWords l).unset (l.length - 1) = .ofWords l.dropLast := by
  ext1
  rw [BashArray.entries_unset, BashArray.entries_ofWords, BashArray.entries_ofWords]
  cases l using List.reverseRecOn with
  | nil => rfl
  | append_singleton l value =>
      have hall : l.zipIdx.filter (fun e => e.2 ≠ l.length) = l.zipIdx := by
        apply List.filter_eq_self.mpr
        intro e he
        have hlt := List.snd_lt_of_mem_zipIdx he
        simpa using hlt.ne
      rw [List.zipIdx_append, List.filter_append]
      simpa using hall

/-! ## Refinement -/

section Calls

variable {sh : Shell} {name : Name} {l : List (List Char)}

theorem push_ofWords {value : List Char} (hkept : Kept sh (sizeWord name))
    (h : Storable sh name value) {a : BashArray}
    (hpush : tcArrayPush sh name value (.ofWords l) = some a) : a = .ofWords (l ++ [value]) := by
  by_cases hne : value = []
  · simp [tcArrayPush, hne] at hpush
  · rw [h.push_eq hkept hne, size_ofWords, set_ofWords] at hpush
    exact (Option.some.inj hpush).symm

theorem pop_ofWords (h : Safe sh name (.ofWords l) .pop) :
    tcArrayPop sh name (.ofWords l) = .ofWords l.dropLast := by
  simp only [tcArrayPop, h.1.command_eq, if_true]
  by_cases hl : l = []
  · subst hl
    rfl
  · have hsize : (BashArray.ofWords l).size ≠ 0 := by simpa using hl
    rw [if_pos ⟨hsize, h.2 hsize⟩, size_ofWords, unset_ofWords]

theorem dequeue_ofWords (h : Safe sh name (.ofWords l) .dequeue) :
    tcArrayDequeue sh name (.ofWords l) = .ofWords l.tail := by
  simp only [tcArrayDequeue, h.1.evalSize_eq, Option.getD_some]
  by_cases hl : l = []
  · subst hl
    rfl
  · have hsize : (BashArray.ofWords l).size ≠ 0 := by simpa using hl
    have hsplit : ∀ value ∈ l.tail, sh.split value = [value] := by
      intro value hmem
      rw [← valuesFrom_ofWords] at hmem
      exact (h.2.2 value hmem).split_eq
    rw [if_neg hsize, if_pos (h.2.1 hsize).command_eq, valuesFrom_ofWords,
      List.flatMap_congr hsplit, List.flatMap_singleton']

theorem top_ofWords (h : Safe sh name (.ofWords l) .top) :
    tcArrayTop sh name (.ofWords l) =
      (.ofWords l, (l.getLast?.map (· ++ ['\n'])).getD []) := by
  simp only [tcArrayTop, h.1.evalSize_eq, Option.getD_some]
  cases l using List.reverseRecOn with
  | nil => rfl
  | append_singleton l value =>
      have hsize : (BashArray.ofWords (l ++ [value])).size ≠ 0 := by simp
      obtain ⟨hkept, hshow⟩ := h.2 hsize
      have hget : (BashArray.ofWords (l ++ [value])).get
          ((BashArray.ofWords (l ++ [value])).size - 1) = value := by
        simp [get_ofWords]
      rw [hget] at hshow
      rw [if_neg hsize, hget, hshow.evalEcho_eq hkept]
      simp

theorem next_ofWords (h : Safe sh name (.ofWords l) .next) :
    tcArrayNext sh name (.ofWords l) = (.ofWords l, (l.head?.map (· ++ ['\n'])).getD []) := by
  simp only [tcArrayNext, h.1.evalSize_eq, Option.getD_some]
  cases l with
  | nil => rfl
  | cons value l =>
      have hsize : (BashArray.ofWords (value :: l)).size ≠ 0 := by simp
      obtain ⟨hkept, hshow⟩ := h.2 hsize
      have hget : (BashArray.ofWords (value :: l)).get 0 = value := by
        simp [get_ofWords]
      rw [hget] at hshow
      rw [if_neg hsize, hget, hshow.evalEcho_eq hkept]
      simp

theorem size_call_ofWords (h : Kept sh (sizeWord name)) :
    tcArraySize sh name (.ofWords l) = (.ofWords l, printInt l.length ++ ['\n']) := by
  simp only [tcArraySize, h.evalSize_eq, Option.map_some, Option.getD_some, size_ofWords]

theorem isEmpty_ofWords (h : Kept sh (sizeWord name)) :
    tcArrayIsEmpty sh name (.ofWords l) = l.isEmpty := by
  rw [tcArrayIsEmpty, h.evalSize_eq, Option.getD_some, size_ofWords]
  cases l with
  | nil => rfl
  | cons value l => rfl

/-- A safe call on an array without gaps is the call on its list. -/
theorem arrayCall_ofWords {call : ArrayCall} (hsafe : Safe sh name (.ofWords l) call)
    {r : BashArray × ArrayReply} (hcall : arrayCall sh name (.ofWords l) call = some r) :
    r = (.ofWords (sequenceCall l call).1, (sequenceCall l call).2) := by
  cases call with
  | push value =>
      obtain ⟨a, hpush, rfl⟩ := Option.map_eq_some_iff.mp hcall
      rw [push_ofWords hsafe.1 hsafe.2 hpush, sequenceCall]
  | enqueue value =>
      obtain ⟨a, hpush, rfl⟩ := Option.map_eq_some_iff.mp hcall
      rw [push_ofWords hsafe.1 hsafe.2 hpush, sequenceCall]
  | pop =>
      cases hcall
      rw [pop_ofWords hsafe, sequenceCall]
  | dequeue =>
      cases hcall
      rw [dequeue_ofWords hsafe, sequenceCall]
  | top =>
      cases hcall
      rw [top_ofWords hsafe, sequenceCall]
  | next =>
      cases hcall
      rw [next_ofWords hsafe, sequenceCall]
  | size =>
      cases hcall
      rw [size_call_ofWords hsafe, sequenceCall]
  | isEmpty =>
      cases hcall
      rw [isEmpty_ofWords hsafe, sequenceCall]

end Calls

/-- In a run of safe calls the array has no gaps and holds the list, and every reply is right. -/
theorem array_calls_refine_sequence (sh : Shell) (name : Name)
    {h : List ((BashArray × List (List Char)) × ArrayCall)} {s : BashArray × List (List Char)}
    (run : (arrayMachine sh name).Run h s) (hsafe : ∀ e ∈ h, Safe sh name e.1.1 e.2) :
    (∀ t ∈ Machine.visited h s, t.1.entries = t.2.zipIdx) ∧
      ∀ e ∈ h, (arrayCall sh name e.1.1 e.2).map Prod.snd = some (sequenceCall e.1.2 e.2).2 := by
  have hstates : s.1 = .ofWords s.2 ∧ (∀ t ∈ Machine.visited h s, t.1.entries = t.2.zipIdx) ∧
      ∀ e ∈ h, (arrayCall sh name e.1.1 e.2).map Prod.snd = some (sequenceCall e.1.2 e.2).2 := by
    induction run with
    | init => exact ⟨rfl, by simp [arrayMachine], by simp⟩
    | @step h s call s' run hs ih =>
        rw [List.forall_mem_cons] at hsafe
        obtain ⟨heq, hvisited, hreplies⟩ := ih hsafe.2
        obtain ⟨r, hcall, rfl⟩ := Option.map_eq_some_iff.mp hs
        have hsafe' := hsafe.1
        rw [heq] at hsafe' hcall
        have hr := arrayCall_ofWords hsafe' hcall
        refine ⟨by rw [hr], ?_, ?_⟩
        · rw [Machine.visited_cons, List.forall_mem_cons]
          exact ⟨by rw [hr]; rfl, hvisited⟩
        · rw [List.forall_mem_cons]
          refine ⟨?_, hreplies⟩
          rw [heq, hcall, hr]
          rfl
  exact hstates.2

/-- A shell in a directory where no word of these calls names a file. -/
def plainShell : Shell := ⟨fun w => [w], fun _ a => a, fun _ _ => [], fun _ _ => none, id⟩

def addrs : Name := ⟨"addrs".toList, by decide, by decide⟩

def mixedCalls : List ArrayCall :=
  [.push "a b".toList, .enqueue "c".toList, .next, .dequeue, .top, .size, .pop, .isEmpty]

theorem array_calls_refine_mixed :
    ∃ h s, (arrayMachine plainShell addrs).replay mixedCalls = some (h, s) ∧
      (∀ e ∈ h, Safe plainShell addrs e.1.1 e.2) ∧
      (∀ t ∈ Machine.visited h s, t.1.entries = t.2.zipIdx) ∧
      ∀ e ∈ h, (arrayCall plainShell addrs e.1.1 e.2).map Prod.snd =
        some (sequenceCall e.1.2 e.2).2 := by
  refine ⟨_, _, rfl, ?_, ?_⟩
  · decide +kernel
  · exact array_calls_refine_sequence _ _ (Machine.run_of_replay mixedCalls rfl) (by decide +kernel)

/-- `tc_array_dequeue` makes two elements of one with a space. -/
theorem dequeue_splits :
    ∃ h s, (arrayMachine plainShell addrs).replay
        [.push "x".toList, .push "a b".toList, .dequeue] = some (h, s) ∧
      s.1.entries = [("a".toList, 0), ("b".toList, 1)] ∧ s.2 = ["a b".toList] ∧
      ¬∀ t ∈ Machine.visited h s, t.1.entries = t.2.zipIdx := by
  refine ⟨_, _, rfl, by decide +kernel, by decide +kernel, by decide +kernel⟩

end AutotestClient.Harness
