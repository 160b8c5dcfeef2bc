import Teach6809.Proofs.Machine.Unrolled

/-!
# Progress

A step counts if it executes an instruction. One more step can be taken that does not fail: that
past the last instruction, by which the program is exhausted. Steps and that end together are the
progress of a machine (`Machine.progress`): every step that does not fail makes progress by one.
Steps lead to one end only, however many are taken.
-/

namespace Teach6809
namespace Machine

variable {m after : Machine} {outcome : Outcome}

/-- No instruction exhausts the program. -/
theorem ne_exhausted_of_execute {i : CheckedInstruction} {next : Word} {reason : Halt}
    (h : m.execute i.mnemonic i.operand next = .ok (after, .halt reason)) :
    reason ≠ .exhausted := by
  rcases reason_of_execute h with ⟨-, rfl⟩ | ⟨-, rfl⟩ | ⟨-, rfl⟩ <;> decide

/-- The step count, and one more past the last instruction. -/
def progress (m : Machine) : Nat := m.steps + if m.halt = some .exhausted then 1 else 0

/-- Only exhaustion is progress that is not counted. -/
theorem progress_of_ne (h : m.halt ≠ some .exhausted) : m.progress = m.steps := by
  rw [progress, if_neg h, Nat.add_zero]

theorem progress_of_running (h : m.halt = none) : m.progress = m.steps :=
  progress_of_ne (by simp [h])

/-- Every step that does not fail makes progress by one. -/
theorem Stepped.progress_of_ok (h : m.Stepped after outcome) (hrunning : m.halt = none)
    {halt : Option Halt} (houtcome : outcome = .ok halt) :
    after.progress = m.progress + 1 := by
  rw [progress_of_running hrunning]
  cases h with
  | stopped hhalt =>
    rw [hrunning] at hhalt
    cases hhalt
  | exhausted => rfl
  | missing | failed => cases houtcome
  | executed hhalt hcurrent hexecute =>
    -- Running off the program is no halt that an instruction brings about.
    rename_i i after flow
    have hsteps : after.steps = m.steps := (execute_keeps hexecute).steps
    rw [progress_of_ne, ← hsteps]
    · cases flow <;> rfl
    · cases flow with
      | halt reason => exact fun hsame => ne_exhausted_of_execute hexecute (Option.some.inj hsame)
      | next | jump target =>
        have hhalt : after.halt = none := by
          rcases (execute_keeps hexecute).halt with hnone | hsame
          · exact hnone
          · exact hsame.trans hrunning
        show after.halt ≠ _
        rw [hhalt]
        decide

/-- A step that fails makes none. -/
theorem Stepped.progress_of_error (h : m.Stepped after outcome) (hrunning : m.halt = none)
    {problem : Diagnostic} (houtcome : outcome = .error problem) :
    after.progress = m.progress := by
  rw [progress_of_running hrunning]
  cases h with
  | stopped | exhausted | executed => cases houtcome
  | missing | failed => rfl

/-- The step count never goes back. -/
theorem Stepped.steps_le (h : m.Stepped after outcome) : m.steps ≤ after.steps := by
  cases h with
  | executed hhalt hcurrent hexecute =>
    rename_i i after flow
    have hsteps : after.steps = m.steps := (execute_keeps hexecute).steps
    rw [← hsteps]
    cases flow <;> exact Nat.le_succ after.steps
  | _ => exact Nat.le_refl m.steps

/-- A step executes one instruction at most. -/
theorem Stepped.steps_le_succ (h : m.Stepped after outcome) : after.steps ≤ m.steps + 1 := by
  cases h with
  | executed hhalt hcurrent hexecute =>
    rename_i i after flow
    have hsteps : after.steps = m.steps := (execute_keeps hexecute).steps
    rw [← hsteps]
    cases flow <;> exact Nat.le_refl (after.steps + 1)
  | _ => exact Nat.le_succ m.steps

/-! ## Several steps -/

/-- Stepping goes on where it stopped. -/
theorem steppedTimes_add (m : Machine) (n k : Nat) :
    m.steppedTimes (n + k) = (m.steppedTimes n).steppedTimes k := by
  unfold steppedTimes
  rw [← List.replicate_append_replicate, performAll_append]

/-- The count of steps never falls. -/
theorem steps_le_steppedTimes (m : Machine) (n : Nat) : m.steps ≤ (m.steppedTimes n).steps := by
  induction n with
  | zero => exact Nat.le_refl m.steps
  | succ n ih =>
    rw [steppedTimes_succ]
    exact Nat.le_trans ih (m.steppedTimes n).stepped.steps_le

/-- A machine that is stopped stays as it is. -/
theorem steppedTimes_of_halted (hhalt : m.halt ≠ none) (n : Nat) : m.steppedTimes n = m := by
  obtain ⟨reason, hreason⟩ := Option.ne_none_iff_exists'.mp hhalt
  induction n with
  | zero => rfl
  | succ n ih =>
    rw [steppedTimes_succ, ih, step_of_halted hreason]

/-- Whoever steps until the machine is stopped gets the same machine. -/
theorem steppedTimes_eq_of_halted {n k : Nat} (hn : (m.steppedTimes n).halt ≠ none)
    (hk : (m.steppedTimes k).halt ≠ none) : m.steppedTimes n = m.steppedTimes k := by
  rcases Nat.le_total n k with hle | hle
  · obtain ⟨more, rfl⟩ := Nat.exists_eq_add_of_le hle
    rw [steppedTimes_add, steppedTimes_of_halted hn]
  · obtain ⟨more, rfl⟩ := Nat.exists_eq_add_of_le hle
    rw [steppedTimes_add, steppedTimes_of_halted hk]

/-- Progress is the growth of the step count, and one more if the program came to be exhausted. -/
theorem progress_steppedTimes (m : Machine) (n : Nat) :
    ∃ grown, (m.steppedTimes n).steps = m.steps + grown ∧
      (m.steppedTimes n).progress = m.progress + grown +
        if m.halt ≠ some .exhausted ∧ (m.steppedTimes n).halt = some .exhausted then 1 else 0 := by
  by_cases hexhausted : m.halt = some .exhausted
  · rw [steppedTimes_of_halted (by simp [hexhausted])]
    exact ⟨0, rfl, by rw [if_neg fun h => h.1 hexhausted]; rfl⟩
  · obtain ⟨grown, hgrown⟩ := Nat.exists_eq_add_of_le (m.steps_le_steppedTimes n)
    refine ⟨grown, hgrown, ?_⟩
    rw [progress_of_ne hexhausted, progress, hgrown]
    simp only [ne_eq, hexhausted, not_false_iff, true_and]

end Machine
end Teach6809
