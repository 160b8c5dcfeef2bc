import Teach6809.Mnemonic

/-!
# Opcodes

The opcode map is regular. Operations that read or write memory sit in rows of sixteen, one row
per addressing mode, `$40` apart for the two halves of the register set; operations on an
accumulator alone sit in one row per accumulator. `Y` and `S` share the codes of `X` and `U`,
behind the page byte `$10`.
-/

namespace Teach6809

/-! ## Addressing modes -/

/-- How the operand of an instruction leads to a value or an address. -/
inductive AddressingMode where
  /-- No operand. -/
  | inherent
  /-- A value in the instruction, `#$10`. -/
  | immediate
  /-- The low byte of an address whose high byte is `DP`, `$10`. -/
  | direct
  /-- A whole address, `$1000`. -/
  | extended
  /-- An offset from an index register, `5,X`. -/
  | indexed
  /-- A label. -/
  | relative
  /-- Two registers, `A,B`. -/
  | registerPair
deriving DecidableEq

namespace AddressingMode

/-- Every addressing mode. -/
def all : List AddressingMode :=
  [inherent, immediate, direct, extended, indexed, relative, registerPair]

/-- What an addressing mode is called in messages. -/
def name : AddressingMode → String
  | inherent => "inherent"
  | immediate => "immediate"
  | direct => "direct"
  | extended => "extended"
  | indexed => "indexed"
  | relative => "relative"
  | registerPair => "register pair"

end AddressingMode

/-! ## Opcodes -/

/-- An opcode byte, on the first page or behind the page byte. -/
structure Opcode where
  paged : Bool
  code : Byte
deriving DecidableEq

namespace Opcode

/-- The byte that leads to the second page of opcodes. -/
def pageByte : Byte := 0x10

/-- The bytes of an opcode. -/
def bytes (o : Opcode) : List Byte := if o.paged then [pageByte, o.code] else [o.code]

/-- How many bytes an opcode takes. -/
def length (o : Opcode) : Nat := if o.paged then 2 else 1

@[simp] theorem length_bytes (o : Opcode) : o.bytes.length = o.length := by
  cases h : o.paged <;> simp [bytes, length, h]

end Opcode

/-! ## The opcode map -/

/-- How far the row of a memory operand is from the immediate row. -/
def AddressingMode.row? : AddressingMode → Option Byte
  | .immediate => some 0x00
  | .direct => some 0x10
  | .indexed => some 0x20
  | .extended => some 0x30
  | _ => none

/-- The immediate opcode of a load. -/
def MovedRegister.loadOpcode : MovedRegister → Opcode
  | .a => ⟨false, 0x86⟩
  | .b => ⟨false, 0xC6⟩
  | .x => ⟨false, 0x8E⟩
  | .y => ⟨true, 0x8E⟩
  | .u => ⟨false, 0xCE⟩
  | .s => ⟨true, 0xCE⟩

/-- The immediate opcode of an operation with accumulator `A`. -/
def BinaryOperation.code : BinaryOperation → Byte
  | .sub => 0x80
  | .cmp => 0x81
  | .and => 0x84
  | .eor => 0x88
  | .or => 0x8A
  | .add => 0x8B

/-- The place of an operation in the row of an accumulator. -/
def UnaryOperation.code : UnaryOperation → Byte
  | .neg => 0x0
  | .com => 0x3
  | .lsr => 0x4
  | .ror => 0x6
  | .lsl => 0x8
  | .rol => 0x9
  | .dec => 0xA
  | .inc => 0xC
  | .clr => 0xF

/-- The place of a condition in the row of the branches. -/
def Condition.code : Condition → Byte
  | .always => 0x0
  | .carryClear => 0x4
  | .carrySet => 0x5
  | .notEqual => 0x6
  | .equal => 0x7
  | .overflowClear => 0x8
  | .overflowSet => 0x9
  | .plus => 0xA
  | .minus => 0xB

namespace Mnemonic

/-- An opcode of the first page for one mode only. -/
def only (mode wanted : AddressingMode) (code : Byte) : Option Opcode :=
  if mode = wanted then some ⟨false, code⟩ else none

/-- The opcode of a mnemonic in an addressing mode, if the machine has it. A label operand of
`JMP` and `JSR` takes the extended opcode. -/
def opcode? (m : Mnemonic) (mode : AddressingMode) : Option Opcode :=
  match m with
  | load target => mode.row?.map fun row =>
    { target.loadOpcode with code := target.loadOpcode.code + row }
  | store source =>
    if mode = .immediate then none
    else mode.row?.map fun row =>
      { source.loadOpcode with code := source.loadOpcode.code + 1 + row }
  | binary operation acc => mode.row?.map fun row =>
    ⟨false, operation.code + row + (if acc = .a then 0x00 else 0x40)⟩
  | unary operation acc =>
    only mode .inherent (operation.code + (if acc = .a then 0x40 else 0x50))
  | nop => only mode .inherent 0x12
  | rts => only mode .inherent 0x39
  | swi => only mode .inherent 0x3F
  | stop => only mode .inherent 0x3F
  | branch condition => only mode .relative (0x20 + condition.code)
  | bsr => only mode .relative 0x8D
  | jsr =>
    match mode with
    | .direct => some ⟨false, 0x9D⟩
    | .indexed => some ⟨false, 0xAD⟩
    | .extended | .relative => some ⟨false, 0xBD⟩
    | _ => none
  | jmp =>
    match mode with
    | .indexed => some ⟨false, 0x6E⟩
    | .extended | .relative => some ⟨false, 0x7E⟩
    | _ => none
  | tfr => only mode .registerPair 0x1F
  | exg => only mode .registerPair 0x1E

/-- The addressing modes of a mnemonic. -/
def modes (m : Mnemonic) : List AddressingMode :=
  AddressingMode.all.filter fun mode => (m.opcode? mode).isSome

/-- How many bytes follow the opcode. -/
def operandLength (m : Mnemonic) : AddressingMode → Nat
  | .inherent => 0
  | .immediate => m.immediateWidth
  | .direct => 1
  | .extended => 2
  | .indexed => 2
  | .relative => if m.isShortBranch then 1 else 2
  | .registerPair => 1

end Mnemonic
end Teach6809
