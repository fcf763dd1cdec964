import AutotestClient.Verification.Aiostress.Coverage
import Mathlib.Data.Nat.Bitwise

/-! # The random offsets of aio-stress -/

namespace AutotestClient.Aiostress.Worker

/-! ## One offset -/

variable {c : Config} {s s' : State c} {l : Label c} {h : List (State c × Label c)}

/-- The I/O of each unit is in the file part of its operation. -/
def InPart (s : State c) : Prop :=
  ∀ v o, (s.units v).oper = some o →
    c.start o ≤ (s.units v).offset ∧ (s.units v).offset + c.reclen ≤ c.stop o

/-- The random offsets come from `random_byte_offset`. -/
def Drawn (pageSize randMax : ℕ) (h : List (State c × Label c)) : Prop :=
  ∀ t (offset : ℕ) o left b, (t, .grab offset) ∈ h → t.pc = .build o (left + 1) b →
    ∃ r ≤ randMax, ∃ r' ≤ randMax,
      (offset : ℤ) = randomByteOffset (c.start o) (c.stop o) c.reclen pageSize randMax r r'

theorem InPart.frame (hi : InPart s) (hoper : ∀ v, (s'.units v).oper = (s.units v).oper)
    (hoffset : ∀ v, (s'.units v).offset = (s.units v).offset) : InPart s' := by
  intro v o hv
  rw [hoffset]
  exact hi v o (hoper v ▸ hv)

theorem InPart.buildIocb (hi : InPart s) {b : Oper c} {offset : ℕ} (v : Iou c)
    (hnext : (s.opers b).rw.sequential = true →
      c.start b ≤ (s.opers b).lastOffset ∧ (s.opers b).lastOffset + c.reclen ≤ c.stop b)
    (hrandom : c.start b ≤ offset ∧ offset + c.reclen ≤ c.stop b) :
    InPart (s.buildIocb v b offset) := by
  intro w o hw
  by_cases hwv : w = v
  · subst w
    by_cases hseq : (s.opers b).rw.sequential
    · simp only [State.buildIocb, State.setOper, hseq, if_true, Function.update_self,
        Option.some.injEq] at hw ⊢
      subst b
      exact hnext hseq
    · simp only [State.buildIocb, State.setOper, hseq, Bool.false_eq_true, if_false,
        Function.update_self, Option.some.injEq] at hw ⊢
      subst b
      exact hrandom
  · obtain ⟨at', next, hunits, -, -⟩ := buildIocb_spec (s := s) v b offset
    rw [hunits, Function.update_of_ne hwv] at hw ⊢
    exact hi w o hw

end AutotestClient.Aiostress.Worker
