import AutotestClient.Model.Harness.Lifecycle
import AutotestClient.Shared.Digits
import AutotestClient.Verification.Harness.Reporting

/-! # Names of temporary accounts

A generated name holds the first five digits of the pid, filled with zeros, and two digits
of the counter. -/

namespace AutotestClient.Harness

open AutotestClient.Shared

variable {letter : Char} {pid pid' : ℕ} {i j : ℤ} {s t : State} {name name' : String}

/-- The number the first five digits of `pid00000` denote. -/
def leading (pid : ℕ) : ℕ := pid * 10 ^ 5 / 10 ^ (Nat.log 10 pid + 1)

/-- `${u:0:6}` without the letter. -/
def pidDigits (pid : ℕ) : List Char := (Nat.toDigits 10 pid ++ List.replicate 5 '0').take 5

/-- `${nn:off:2}` -/
def counterDigits (n : ℕ) : List Char :=
  let nn := '0' :: '0' :: Nat.toDigits 10 n
  nn.drop (nn.length - 2)

theorem generatedName_eq (letter : Char) (pid n : ℕ) :
    generatedName letter pid n = String.ofList (letter :: (pidDigits pid ++ counterDigits n)) := by
  have hcounter : ("00" ++ toString (n : ℤ)).toList = '0' :: '0' :: Nat.toDigits 10 n := by
    rw [String.toList_append]
    exact congrArg _ (String.toList_ofList)
  have hpid : (toString pid).toList = Nat.toDigits 10 pid := String.toList_ofList
  rw [generatedName]
  simp only [hcounter, hpid]
  rfl

theorem digit_pidDigits (pid : ℕ) : ∀ d ∈ pidDigits pid, isDigitOf 10 d := by
  intro d hd
  rcases List.mem_append.mp (List.mem_of_mem_take hd) with hd | hd
  · exact mem_toDigits d hd
  · rw [List.eq_of_mem_replicate hd]
    decide

theorem length_pidDigits (pid : ℕ) : (pidDigits pid).length = 5 := by
  simp [pidDigits]

theorem digitsValue_pidDigits (pid : ℕ) : digitsValue 10 (pidDigits pid) = leading pid := by
  have hzeros : ∀ d ∈ Nat.toDigits 10 pid ++ List.replicate 5 '0', isDigitOf 10 d := by
    rw [List.forall_mem_append]
    exact ⟨mem_toDigits, fun d hd => by rw [List.eq_of_mem_replicate hd]; decide⟩
  have hvalue : digitsValue 10 (List.replicate 5 '0') = 0 := by decide
  rw [pidDigits, digitsValue_take hzeros, digitsValue_append,
    digitsValue_toDigits (by decide) (by decide), hvalue, List.length_append,
    length_toDigits (by decide), List.length_replicate, Nat.add_zero, Nat.add_sub_cancel, leading]

theorem pidDigits_eq_iff : pidDigits pid = pidDigits pid' ↔ leading pid = leading pid' := by
  rw [← digitsValue_pidDigits, ← digitsValue_pidDigits]
  constructor
  · intro h
    rw [h]
  · intro h
    apply eq_of_digitsValue (digit_pidDigits pid) (digit_pidDigits pid') _ h
    rw [length_pidDigits, length_pidDigits]

theorem digitsValue_counterDigits {n : ℕ} (hn : n < 100) :
    digitsValue 10 (counterDigits n) = n := by
  have hall : ∀ n : Fin 100, digitsValue 10 (counterDigits n) = n := by decide +kernel
  exact hall ⟨n, hn⟩

/-- Two generated names with counters of at most two digits are the same if the pids begin
with the same digits and the counters agree. -/
theorem generatedName_eq_iff (hi : 0 ≤ i ∧ i < 100) (hj : 0 ≤ j ∧ j < 100) :
    generatedName letter pid i = generatedName letter pid' j ↔
      leading pid = leading pid' ∧ i = j := by
  lift i to ℕ using hi.1
  lift j to ℕ using hj.1
  rw [generatedName_eq, generatedName_eq, String.ofList_inj, List.cons_inj_right]
  constructor
  · intro h
    have hlength : (pidDigits pid).length = (pidDigits pid').length := by
      rw [length_pidDigits, length_pidDigits]
    obtain ⟨hpid, hcounter⟩ := List.append_inj h hlength
    have hvalue := congrArg (digitsValue 10) hcounter
    rw [digitsValue_counterDigits (by omega), digitsValue_counterDigits (by omega)] at hvalue
    exact ⟨pidDigits_eq_iff.mp hpid, congrArg _ hvalue⟩
  · rintro ⟨hpid, hcounter⟩
    rw [pidDigits_eq_iff.mpr hpid, Int.ofNat_inj.mp hcounter]

theorem chooseUser_auto (hname : name = "" ∨ name = "auto") (hlt : s.users.ndx < 99) :
    (chooseUser name s).2 = .ok (generatedName 'u' s.pid (s.users.ndx + 1)) := by
  have hle : s.users.ndx + 1 ≤ 99 := by omega
  simp only [chooseUser, if_pos hname, if_pos hle, tcBreakIfBadRc_pass, ne_eq,
    not_true_eq_false, if_false]

theorem chooseGroup_auto (hlt : s.groups.ndx < 99) :
    (chooseGroup "" s).2 = .ok (generatedName 'g' s.pid (s.groups.ndx + 1)) := by
  have hle : s.groups.ndx + 1 ≤ 99 := by omega
  simp only [chooseGroup, if_pos hle, tcBreakIfBadRc_pass, ne_eq, not_true_eq_false, if_false]

/-- The counter is at a value from which the next automatic call still gets a name. -/
def Registry.Counting (r : Registry) : Prop := 0 ≤ r.ndx ∧ r.ndx < 99

theorem generatedName_unique_iff {r r' : Registry} (hr : r.Counting) (hr' : r'.Counting) :
    (generatedName letter pid (r.ndx + 1) = generatedName letter pid' (r'.ndx + 1) →
        pid = pid' ∧ r.ndx + 1 = r'.ndx + 1) ↔
      (leading pid = leading pid' → r.ndx = r'.ndx → pid = pid') := by
  obtain ⟨hr0, hr⟩ := hr
  obtain ⟨hr0', hr'⟩ := hr'
  rw [generatedName_eq_iff ⟨by omega, by omega⟩ ⟨by omega, by omega⟩]
  constructor
  · intro h hpid hcounter
    exact (h ⟨hpid, by rw [hcounter]⟩).1
  · rintro h ⟨hpid, hcounter⟩
    exact ⟨h hpid (by omega), hcounter⟩

/-- Two processes that create accounts automatically pick names that tell their pids and
counters apart, unless the pids differ, begin with the same five digits after zeros are
added at the end, and the counters agree. -/
theorem automatic_names_unique_iff (hname : name = "" ∨ name = "auto")
    (hname' : name' = "" ∨ name' = "auto") (hs : s.users.Counting ∧ s.groups.Counting)
    (ht : t.users.Counting ∧ t.groups.Counting) :
    (∃ u v, (chooseUser name s).2 = .ok u ∧ (chooseUser name' t).2 = .ok v ∧
        ((u = v → s.pid = t.pid ∧ s.users.ndx + 1 = t.users.ndx + 1) ↔
          (leading s.pid = leading t.pid → s.users.ndx = t.users.ndx → s.pid = t.pid))) ∧
      ∃ g h, (chooseGroup "" s).2 = .ok g ∧ (chooseGroup "" t).2 = .ok h ∧
        ((g = h → s.pid = t.pid ∧ s.groups.ndx + 1 = t.groups.ndx + 1) ↔
          (leading s.pid = leading t.pid → s.groups.ndx = t.groups.ndx → s.pid = t.pid)) := by
  constructor
  · exact ⟨_, _, chooseUser_auto hname hs.1.2, chooseUser_auto hname' ht.1.2,
      generatedName_unique_iff hs.1 ht.1⟩
  · exact ⟨_, _, chooseGroup_auto hs.2.2, chooseGroup_auto ht.2.2,
      generatedName_unique_iff hs.2 ht.2⟩

/-- A testcase that has just started with this pid. -/
def startedWith (pid : ℕ) : State := tcSetup ⟨pid, 1, true, fun _ => "", ["root"], ["root"], []⟩

theorem counting_startedWith (pid : ℕ) :
    (startedWith pid).users.Counting ∧ (startedWith pid).groups.Counting := by
  have hzero : (0 : ℤ) ≤ 0 ∧ (0 : ℤ) < 99 := by decide
  exact ⟨hzero, hzero⟩

/-- Neighbouring pids of four digits do not meet. -/
theorem automatic_names_neighbours :
    ∃ u v, (chooseUser "auto" (startedWith 4711)).2 = .ok u ∧
      (chooseUser "" (startedWith 4712)).2 = .ok v ∧ u ≠ v := by
  obtain ⟨⟨u, v, hu, hv, hiff⟩, -⟩ := automatic_names_unique_iff (.inr rfl) (.inl rfl)
    (counting_startedWith 4711) (counting_startedWith 4712)
  have hunique := hiff.mpr fun h => absurd h (by decide +kernel)
  exact ⟨u, v, hu, hv, fun huv => absurd (hunique huv).1 (by decide)⟩

/-- Pids 1 and 10 both become `10000`. -/
theorem automatic_names_collide :
    (startedWith 1).pid ≠ (startedWith 10).pid ∧
      (chooseUser "auto" (startedWith 1)).2 = .ok "u1000001" ∧
      (chooseUser "auto" (startedWith 10)).2 = .ok "u1000001" ∧
      (chooseGroup "" (startedWith 1)).2 = .ok "g1000001" ∧
      (chooseGroup "" (startedWith 10)).2 = .ok "g1000001" := by
  have h1 := counting_startedWith 1
  have h10 := counting_startedWith 10
  rw [chooseUser_auto (.inr rfl) h1.1.2, chooseUser_auto (.inr rfl) h10.1.2,
    chooseGroup_auto h1.2.2, chooseGroup_auto h10.2.2]
  decide +kernel

end AutotestClient.Harness
