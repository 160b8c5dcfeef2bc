import Teach6809.Instruction
import Teach6809.Memory
import Teach6809.RegisterFile

/-!
# Programs

An assembled program: its instructions in the order of the source lines, each with its address and
its bytes, and the labels with the lines that declare them. A label stands for the address of the
first instruction on or below its line, or for the end of the program if there is none. The end
may be `$10000`, one more than the last address.
-/

namespace Teach6809

/-- A checked instruction and where it was written. -/
structure LocatedInstruction extends CheckedInstruction where
  line : Nat
  span : Span
deriving DecidableEq

/-- An instruction at its address. The operand bytes are empty until labels have addresses. -/
structure PlacedInstruction extends LocatedInstruction where
  address : Word
  operandBytes : List Byte
deriving DecidableEq

namespace PlacedInstruction

/-- The address after an instruction, which is zero after the last address. -/
def next (i : PlacedInstruction) : Word := i.address + UInt16.ofNat i.size

/-- The whole encoding of an instruction. -/
def bytes (i : PlacedInstruction) : List Byte := i.head ++ i.operandBytes

/-- An instruction as it is shown. -/
def text (i : PlacedInstruction) : String := i.instruction.text

end PlacedInstruction

/-- An assembled program. -/
structure Program where
  labels : LabelTable
  /-- The number of lines of the source text, blank ones included. -/
  lineCount : Nat
  lines : List PlacedInstruction
deriving DecidableEq

namespace Program

/-- The first address after the program. -/
def stop (p : Program) : Nat :=
  match p.lines.getLast? with
  | some last => last.address.toNat + last.size
  | none => origin.toNat

/-- The instruction that starts at an address. -/
def at? (p : Program) (address : Word) : Option PlacedInstruction :=
  p.lines.find? fun i => i.address == address

/-- The number of the instruction that starts at an address. -/
def indexOf? (p : Program) (address : Word) : Option Nat :=
  p.lines.findIdx? fun i => i.address == address

/-- The number of the first instruction on or below a line. -/
def indexFromLine (p : Program) (line : Nat) : Nat :=
  (p.lines.takeWhile fun i => i.line < line).length

/-- The address of a label. -/
def labelAddress? (p : Program) (name : String) : Option Nat :=
  (p.labels.line? name).map fun line =>
    match p.lines[p.indexFromLine line]? with
    | some i => i.address.toNat
    | none => p.stop

/-- The address of a label as the machine uses it, cut to sixteen bits. -/
def labelTarget? (p : Program) (name : String) : Option Word :=
  (p.labelAddress? name).map UInt16.ofNat

/-- The bytes of a program in the order of their addresses. -/
def image (p : Program) : List Byte := p.lines.flatMap PlacedInstruction.bytes

/-- A memory that holds a program and zeros elsewhere. -/
def store (p : Program) : Memory := Memory.empty.load origin.toNat p.image

end Program
end Teach6809
