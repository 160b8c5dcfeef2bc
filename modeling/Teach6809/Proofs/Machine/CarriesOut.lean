import Teach6809.Proofs.Machine.Retyped

/-!
# Carrying out an instruction

A machine carries out an instruction as the next step of its program, or because it was typed by
hand (`Machine.CarriesOut`). Either way the instruction is executed and then followed; what differs
is the address it is followed from and whether it is counted. So what is known of an instruction
that does not depend on its address is known of the machine that has carried it out, but for `PC`,
and for `PC` too if control was sent elsewhere.
-/

namespace Teach6809
namespace Machine

/-- The ways of carrying out an instruction, each with the machine it leaves and its outcome. -/
inductive CarriesOut (m : Machine) : CheckedInstruction → Machine → Outcome → Prop where
  | stepped {i : PlacedInstruction} (hrunning : m.halt = none) (hcurrent : m.current? = some i) :
      m.CarriesOut i.toCheckedInstruction m.step.1 m.step.2
  | typed {line : String} {i : CheckedInstruction}
      (hread : readTyped m.program.labels line = .ok i) :
      m.CarriesOut i (m.evaluate line).1 (m.evaluate line).2

variable {m after moved : Machine} {i : CheckedInstruction} {outcome : Outcome} {flow : Flow}

/-- An executed instruction that goes on, followed from some address and counted or not. -/
theorem CarriesOut.exists_follow (h : m.CarriesOut i after outcome)
    (hexecute : ∀ next, m.ready.execute i.mnemonic i.operand next = .ok (moved, flow))
    (hgoes : ∀ reason, flow ≠ .halt reason) :
    ∃ here steps, after = ({ moved with steps } : Machine).follow here flow ∧
      outcome = .ok after.halt := by
  cases h with
  | @stepped i hrunning hcurrent =>
    have hstep := step_of_execute hrunning hcurrent (hexecute i.next)
    exact ⟨i.next, moved.steps + 1, by rw [hstep], by rw [hstep]⟩
  | @typed line _ hread =>
    have hevaluate := evaluate_of_going hgoes hread (hexecute m.pc)
    exact ⟨m.pc, moved.steps, by rw [hevaluate], by rw [hevaluate]⟩

/-- Without a halt, following the flow only moves the program counter and counts the step. -/
theorem SameButPc.follow (m : Machine) (here : Word) (steps : Nat)
    (hgoes : ∀ reason, flow ≠ .halt reason) :
    m.SameButPc (({ m with steps } : Machine).follow here flow) := by
  cases flow with
  | halt reason => exact absurd rfl (hgoes reason)
  | next => exact .goto m steps m.pc here
  | jump target => exact .goto m steps m.pc target

/-- What an instruction that goes on has left when it is executed, the machine shows when it has
carried it out. -/
theorem CarriesOut.of_execute (h : m.CarriesOut i after outcome)
    (hexecute : ∀ next, m.ready.execute i.mnemonic i.operand next = .ok (moved, flow))
    (hgoes : ∀ reason, flow ≠ .halt reason) :
    moved.SameButPc after ∧ outcome = .ok moved.halt ∧
      ∀ target, flow = .jump target → after.pc = target := by
  obtain ⟨here, steps, rfl, houtcome⟩ := h.exists_follow hexecute hgoes
  have hsame := SameButPc.follow moved here steps hgoes
  refine ⟨hsame, houtcome.trans (congrArg Except.ok hsame.halt.symm), ?_⟩
  rintro target rfl
  rfl

end Machine
end Teach6809
