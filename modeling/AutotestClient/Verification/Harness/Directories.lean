import AutotestClient.Model.Harness.Directories

/-! # Directories after a testcase

The cleanup removes what `tc_check_or_create_dir` made, if all tests were registered, and nothing
that was there before. -/

namespace AutotestClient.Harness.Directories

open Shared

variable {t : PathTree String} {s : State} {done : List Action} {p : Path}

/-- The testcase did not remove the directory. -/
def Untouched (actions : List Action) (p : Path) : Prop :=
  ∀ d, .remove d ∈ actions → ¬ d <+: p

/-- The testcase made the directory itself. -/
def MadeByTest (actions : List Action) (p : Path) : Prop := ∃ d, .mkdir d ∈ actions ∧ p <+: d

theorem Untouched.of_append {actions more : List Action} (hu : Untouched (actions ++ more) p) :
    Untouched actions p :=
  fun d hd => hu d (List.mem_append_left more hd)

theorem MadeByTest.append {actions : List Action} (hm : MadeByTest actions p)
    (more : List Action) : MadeByTest (actions ++ more) p := by
  obtain ⟨d, hd, hp⟩ := hm
  exact ⟨d, List.mem_append_left more hd, hp⟩

end AutotestClient.Harness.Directories
