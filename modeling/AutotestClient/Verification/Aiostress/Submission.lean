import AutotestClient.Verification.Aiostress.Batches

/-! # What an aio-stress thread submits and waits for -/

namespace AutotestClient.Aiostress.Worker

variable {c : Config} {s s' : State c} {l : Label c} {h : List (State c × Label c)}

/-! ## Why a thread gives up -/

/-- `io_submit` refused all of a batch while nothing was in flight. -/
def Refused (h : List (State c × Label c)) : Prop := ∃ t, (t, .again) ∈ h ∧ t.pending = 0

theorem Refused.cons (hr : Refused h) (e : State c × Label c) : Refused (e :: h) := by
  obtain ⟨t, ht, hpending⟩ := hr
  exact ⟨t, List.mem_cons_of_mem e ht, hpending⟩

theorem runBuilt_pc (b : Batch c) :
    (s.runBuilt b).pc = .loop ∨ (s.runBuilt b).pc = .submit b := by
  unfold State.runBuilt
  by_cases hnil : b.iocbs = []
  · exact .inl (by simp [hnil])
  · exact .inr (by simp [hnil])

end AutotestClient.Aiostress.Worker
