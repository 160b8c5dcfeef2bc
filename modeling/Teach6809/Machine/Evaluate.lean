import Teach6809.Assembly
import Teach6809.Machine

/-!
# Instructions typed by hand

A single line can be executed on a machine without being part of its program. Its label is read and
ignored. The program counter moves only if the instruction transfers control, and an instruction
that would halt the program does nothing.
-/

namespace Teach6809
namespace Machine

/-- Reads a line to be executed, with the labels of a program. Of all diagnostics, only that of a
malformed label has a place. -/
def readTyped (labels : LabelTable) (source : String) : Except Diagnostic CheckedInstruction := do
  let line ← SourceLine.read 0 0 source.toList
  match line.statement with
  | none => .error (.unplaced .nothingToEvaluate)
  | some s =>
    match Instruction.ofStatement? s with
    | none => .error (.unplaced (.unsupportedInstruction s.mnemonic.text))
    | some instruction => (instruction.check labels).mapError .unplaced

/-- Executes a checked instruction where the machine stands. -/
def evaluateChecked (m : Machine) (i : CheckedInstruction) : Except Cause Machine :=
  (m.execute i.mnemonic i.operand m.pc).map fun (after, flow) =>
    match flow with
    | .halt _ => after
    | flow => after.follow m.pc flow

/-- Executes a line typed by hand. The stores of the last instruction are forgotten in any case. -/
def evaluate (m : Machine) (source : String) : Machine × Outcome :=
  let fresh := { m with writes := [] }
  match readTyped m.program.labels source with
  | .error problem => (fresh, .error problem)
  | .ok i =>
    match fresh.evaluateChecked i with
    | .error cause => (fresh, .error (.unplaced cause))
    | .ok after => (after, .ok after.halt)

end Machine
end Teach6809
