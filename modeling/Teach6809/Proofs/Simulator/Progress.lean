import Teach6809.Proofs.Machine.Progress
import Teach6809.Proofs.Simulator.Consistent

/-!
# Steps of a simulator

As long as a simulator is assembled and not halted, its steps and runs are steps of the machine, and
assembling takes none. So the machine after them is one that was stepped a number of times, and a
program that ran past its last instruction (`Simulator.overrun`) has done so for good.
-/

namespace Teach6809
namespace Simulator

/-- Whether the program ran past its last instruction from one moment to another, as a number. -/
def overrun (s after : Simulator) : Nat :=
  if s.halt? ≠ some .exhausted ∧ after.halt? = some .exhausted then 1 else 0

/-- What stays once it is so is counted once. -/
theorem overrun_add_le {s t u : Simulator}
    (hst : s.halt? = some .exhausted → t.halt? = some .exhausted)
    (htu : t.halt? = some .exhausted → u.halt? = some .exhausted) :
    s.overrun t + t.overrun u ≤ s.overrun u := by
  unfold overrun
  by_cases ht : t.halt? = some .exhausted
  · simp [ht, htu ht]
  · simp [ht, mt hst ht]

/-- Nothing is told in excess unless the program came to be exhausted. -/
theorem overrun_of_ne {s after : Simulator} (h : after.halt? ≠ some .exhausted) :
    s.overrun after = 0 :=
  if_neg fun hboth => h hboth.2

variable {s : Simulator} {m : Machine}

/-! ## Steps and runs -/

/-- The machine that is taken over is the machine. -/
theorem machine_settle (s : Simulator) (m : Machine) (outcome : Machine.Outcome)
    (writes : List (Word × Byte)) (started : List PlacedInstruction) :
    (s.settle m outcome writes started).simulator.machine = some m := by
  cases outcome <;> rfl

theorem machine_step (hm : s.machine = some m) (hstatus : s.status ≠ .halted) :
    s.step.simulator.machine = some m.step.1 := by
  rw [step_of_machine hm hstatus, machine_settle]

/-- A step answers with the diagnostic of the machine. -/
theorem answer_step_of_error {problem : Diagnostic} (hm : s.machine = some m)
    (hstatus : s.status ≠ .halted) (h : m.step.2 = .error problem) :
    s.step.answer = .error problem := by
  rw [step_of_machine hm hstatus, h]
  rfl

/-- A step of the machine that does not fail is answered with a view. -/
theorem answer_step_of_ok {halt : Option Halt} (hm : s.machine = some m)
    (hstatus : s.status ≠ .halted) (h : m.step.2 = .ok halt) :
    ∃ view, s.step.answer = .ok view := by
  rw [step_of_machine hm hstatus, h]
  exact ⟨_, rfl⟩

/-- A run of an assembled program takes steps. -/
theorem machine_runUntil (hm : s.machine = some m) (cancel : Nat → Bool) :
    ∃ n, (s.runUntil cancel).simulator.machine = some (m.steppedTimes n) := by
  by_cases hstatus : s.status = .halted
  · refine ⟨0, ?_⟩
    rw [runUntil, hm]
    show (s.runAssembled m cancel).simulator.machine = some m
    rw [runAssembled, if_pos hstatus]
    exact hm
  · obtain ⟨n, -, hends⟩ := m.runUntil_endsWith_last s.maxSteps fun count _ => cancel count
    refine ⟨n + 1, ?_⟩
    rw [runUntil_of_machine hm hstatus, machine_settle, hends.machine, Machine.steppedTimes_succ]

/-- A machine that is stopped stays so while steps are taken. -/
theorem halt?_of_steppedTimes {after : Simulator} {reason : Halt}
    (hafter : ∀ m, s.machine = some m → ∃ n, after.machine = some (m.steppedTimes n))
    (hhalt : s.halt? = some reason) : after.halt? = some reason := by
  obtain ⟨m, hm, hreason⟩ := Option.bind_eq_some_iff.mp hhalt
  obtain ⟨n, hsame⟩ := hafter m hm
  rw [Machine.steppedTimes_of_halted (by simp [hreason])] at hsame
  rw [halt?_of_machine hsame, hreason]

/-! ## Without a machine -/

theorem steps_of_none (hm : s.machine = none) : s.steps = 0 := by
  rw [steps, hm]
  rfl

theorem halt?_of_none (hm : s.machine = none) : s.halt? = none := by
  rw [halt?, hm]
  rfl

/-- Assembling takes no steps, and stops nothing. -/
theorem steps_assemble (s : Simulator) :
    s.assemble.simulator.steps = 0 ∧ s.assemble.simulator.halt? = none := by
  unfold assemble
  split
  · exact ⟨rfl, rfl⟩
  · rename_i hm
    split
    · exact ⟨steps_of_none hm, halt?_of_none hm⟩
    · exact ⟨rfl, rfl⟩

end Simulator
end Teach6809
