import Teach6809.Proofs.Machine.Run

/-!
# What is done to a machine

Whoever holds a machine steps it, runs it, types instructions, writes registers and data or takes it
back to its start (`Machine.Action`). The states a machine can get into are those after a list of
actions. Main statement: none of them changes the program.
-/

namespace Teach6809
namespace Machine

/-- What can be done to a machine from outside. -/
inductive Action where
  | step
  | runUntil (limit : Nat) (cancel : Nat → Machine → Bool)
  | evaluate (line : String)
  | set (r : Register) (value : Word)
  | poke (address : Word) (value : Byte)
  | reset

/-- The machine after an action, whether or not the action succeeded. -/
def perform (m : Machine) : Action → Machine
  | .step => m.step.1
  | .runUntil limit cancel => (m.runUntil limit cancel).machine
  | .evaluate line => (m.evaluate line).1
  | .set r value => m.set r value
  | .poke address value => m.poke address value
  | .reset => m.reset

/-- The machine after several actions. -/
def performAll (m : Machine) (actions : List Action) : Machine := actions.foldl perform m

theorem program_perform (m : Machine) (a : Action) : (m.perform a).program = m.program := by
  have hstep : ∀ n : Machine, n.program = m.program → n.step.1.program = m.program := by
    intro n hn
    exact n.stepped.program.trans hn
  cases a with
  | step => exact hstep m rfl
  | runUntil limit cancel =>
    -- The run ends with a step from a machine that still has the program.
    obtain ⟨last, hlast, hends⟩ := runUntil_endsWith hstep rfl limit cancel
    show (m.runUntil limit cancel).machine.program = m.program
    rw [hends.machine]
    exact hstep last hlast
  | evaluate line => exact (m.evaluate_keeps line).program
  | set r value => rfl
  | poke address value => rfl
  | reset => rfl

/-- The program stays the same whatever is done. -/
theorem program_performAll (m : Machine) (actions : List Action) :
    (m.performAll actions).program = m.program := by
  unfold performAll
  induction actions generalizing m with
  | nil => rfl
  | cons a rest ih =>
    rw [List.foldl_cons, ih]
    exact m.program_perform a

end Machine
end Teach6809
