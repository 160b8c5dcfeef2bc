import Teach6809.Machine.Run
import Teach6809.Proofs.Machine.Step

/-!
# How a run goes on and ends

A run is a number of steps, and the last of them decides how it ends: the machine is as that step
left it, and the outcome is that of the step, unless another step could have followed and the limit
was used up (`Run.EndsWith`). Main statement: `runUntil_endsWith`, from which every property of
steps carries over to runs.
-/

namespace Teach6809

/-- The last step of a run, from the machine before it. -/
structure Run.EndsWith (run : Run) (last : Machine) : Prop where
  machine : run.machine = last.step.1
  outcome : run.outcome = last.step.2 ∨
    last.step.2 = .ok none ∧ ∃ count, run.outcome = .error (.unplaced (.stepLimit count))

namespace Machine

variable {cancel : Nat → Machine → Bool} {left count : Nat} {m after : Machine}
  {writes : List (Word × Byte)} {started : List PlacedInstruction}

/-! ## One more step -/

/-- A step that stops the machine or fails ends the run, without the stores of that step. -/
theorem continueRun_of_ended {outcome : Outcome} (hstep : m.step = (after, outcome))
    (hended : outcome ≠ .ok none) :
    continueRun cancel left count m writes started =
      { machine := after, outcome, writes := writes.reverse
        started := (m.starting?.toList ++ started).reverse } := by
  unfold continueRun
  rw [hstep]
  rcases outcome with problem | _ | reason
  · rfl
  · exact absurd rfl hended
  · rfl

/-- A run that is called off after a step has the stores of that step. -/
theorem continueRun_of_cancelled (hstep : m.step = (after, .ok none))
    (hcancel : cancel (count + 1) after = true) :
    continueRun cancel left count m writes started =
      { machine := after, outcome := .ok none, writes := writes.reverse ++ after.writes
        started := (m.starting?.toList ++ started).reverse } := by
  unfold continueRun
  rw [hstep]
  dsimp only
  rw [if_pos hcancel, List.reverse_append, List.reverse_reverse]

/-- A run that is not called off goes on after a step that goes on. -/
theorem continueRun_succ (hstep : m.step = (after, .ok none))
    (hcancel : cancel (count + 1) after = false) :
    continueRun cancel (left + 1) count m writes started =
      continueRun cancel left (count + 1) after (after.writes.reverse ++ writes)
        (m.starting?.toList ++ started) := by
  rw [continueRun, hstep]
  dsimp only
  rw [if_neg (Bool.eq_false_iff.mp hcancel)]

/-! ## The last step -/

/-- What is true of a machine and kept by steps is true before the last step of its runs. -/
theorem continueRun_endsWith {P : Machine → Prop} (hkept : ∀ m, P m → P m.step.1) (hm : P m) :
    ∃ last, P last ∧ (continueRun cancel left count m writes started).EndsWith last := by
  fun_induction continueRun cancel left count m writes started with
  | case1 left count m writes started _ _ after problem hstep =>
    exact ⟨m, hm, by rw [hstep], .inl (by rw [hstep])⟩
  | case2 left count m writes started _ _ after reason hstep =>
    exact ⟨m, hm, by rw [hstep], .inl (by rw [hstep])⟩
  | case3 left count m writes started _ _ after hstep =>
    exact ⟨m, hm, by rw [hstep], .inl (by rw [hstep])⟩
  | case4 count m writes started _ _ after hstep =>
    exact ⟨m, hm, by rw [hstep], .inr ⟨by rw [hstep], count + 1, rfl⟩⟩
  | case5 count m writes started _ after hstep _ _ left ih =>
    have hnext := hkept m hm
    rw [hstep] at hnext
    exact ih hnext

/-- The last step of a run is taken from a machine of which everything is true that steps keep. -/
theorem runUntil_endsWith {P : Machine → Prop} (hkept : ∀ m, P m → P m.step.1) (hm : P m)
    (limit : Nat) (cancel : Nat → Machine → Bool) :
    ∃ last, P last ∧ (m.runUntil limit cancel).EndsWith last :=
  continueRun_endsWith hkept hm

end Machine

namespace Run.EndsWith

variable {run : Run} {last : Machine}

/-- A run that answers a halt has left the machine stopped, and one that answers none has not. -/
theorem halt (h : run.EndsWith last) {halt : Option Halt} (houtcome : run.outcome = .ok halt) :
    run.machine.halt = halt := by
  rw [h.machine]
  rcases h.outcome with hsame | ⟨-, count, hlimit⟩
  · exact last.stepped.halt (hsame.symm.trans houtcome)
  · rw [hlimit] at houtcome
    cases houtcome

end Run.EndsWith
end Teach6809
