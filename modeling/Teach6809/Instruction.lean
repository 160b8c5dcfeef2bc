import Teach6809.Operand.Reading

/-!
# Instructions

An instruction is a mnemonic and the text of its operand, upper case and without white space. A
checked instruction also has its opcode and its operand as a value; what is left to know is where
labels are.
-/

namespace Teach6809

/-! ## Instructions as written -/

/-- A mnemonic and the text of its operand. -/
structure Instruction where
  mnemonic : Mnemonic
  operand : Option String
deriving DecidableEq

namespace Instruction

/-- The addressing mode of an instruction. -/
def mode (i : Instruction) : AddressingMode :=
  if i.mnemonic.takesPair then .registerPair
  else
    match i.operand with
    | none => .inherent
    | some text => .ofText text.toList

/-- An instruction as it is shown. -/
def text (i : Instruction) : String :=
  match i.operand with
  | some operand => i.mnemonic.name ++ " " ++ operand
  | none => i.mnemonic.name

/-- The instruction of a statement, if its mnemonic is one. -/
def ofStatement? (s : Statement) : Option Instruction := do
  let mnemonic ← Mnemonic.ofName? s.mnemonic.text
  return ⟨mnemonic, s.operand.map Token.text⟩

end Instruction

/-! ## Checked instructions -/

/-- An instruction that the machine has, with its operand read. -/
structure CheckedInstruction where
  instruction : Instruction
  opcode : Opcode
  operand : Operand
deriving DecidableEq

/-- Checks an instruction against the opcode map, then its operand against the addressing mode and
the labels of the program. -/
def Instruction.check (labels : LabelTable) (i : Instruction) : Except Cause CheckedInstruction :=
  match i.mnemonic.opcode? i.mode with
  | none => .error (.unsupportedMode i.mnemonic i.mode)
  | some opcode =>
    (Operand.read labels i.mnemonic i.mode i.operand).map fun operand =>
      { instruction := i, opcode, operand }

namespace CheckedInstruction

/-- The mnemonic of a checked instruction. -/
def mnemonic (i : CheckedInstruction) : Mnemonic := i.instruction.mnemonic

/-- The encoded length in bytes, known before labels have addresses. -/
def size (i : CheckedInstruction) : Nat :=
  i.opcode.length + i.mnemonic.operandLength i.instruction.mode

/-- The opcode bytes, and the post-byte that names the registers of a pair. -/
def head (i : CheckedInstruction) : List Byte :=
  match i.operand with
  | .pair source target => i.opcode.bytes ++ [source.code <<< 4 ||| target.code]
  | _ => i.opcode.bytes

end CheckedInstruction

/-! ## Operand bytes -/

/-- The bytes of a word, high byte first. -/
def Word.bytes (w : Word) : List Byte := [Word.high w, Word.low w]

/-- The displacement byte of a branch from the address after it to its target. -/
def displacement (next target : Word) : Except Cause Byte :=
  let distance : Int := (target.toNat : Int) - next.toNat
  if -128 ≤ distance ∧ distance ≤ 127 then .ok (Int8.ofInt distance).toUInt8
  else .error (.branchOutOfRange target distance)

/-- The bytes that follow the head of an instruction. `next` is the address after the instruction
and `address?` gives the addresses of labels. -/
def Operand.bytes (m : Mnemonic) (next : Word) (address? : String → Option Word) :
    Operand → Except Cause (List Byte)
  | .absent | .pair _ _ => .ok []
  | .immediate value =>
    .ok (if m.immediateWidth = 2 then Word.bytes value else [Word.low value])
  | .direct low => .ok [low]
  | .extended address => .ok (Word.bytes address)
  | .indexed offset base => .ok [base.postByte, offset.toUInt8]
  | .label name =>
    match address? name with
    | none => .error (.unresolvedLabel name)
    | some address =>
      if m.isShortBranch then (displacement next address).map fun byte => [byte]
      else .ok (Word.bytes address)

end Teach6809
