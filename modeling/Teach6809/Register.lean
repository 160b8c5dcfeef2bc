/-!
# Registers by name

The ten registers a program can name. `D` is the pair of the accumulators `A` and `B`; `CC` packs
the condition flags. Four of the registers can be the base of an indexed operand, two of them are
the 8-bit accumulators.
-/

namespace Teach6809

/-- A byte of the machine. -/
abbrev Byte := UInt8

/-- A 16-bit word, also used as an address. -/
abbrev Word := UInt16

/-- The word of a high and a low byte. -/
def Word.ofBytes (high low : Byte) : Word := high.toUInt16 <<< 8 ||| low.toUInt16

/-- The high byte of a word. -/
def Word.high (w : Word) : Byte := (w >>> 8).toUInt8

/-- The low byte of a word. -/
def Word.low (w : Word) : Byte := w.toUInt8

/-- A word as a signed number. -/
def Word.signed (w : Word) : Int := w.toInt16.toInt

/-- A byte as a signed number. -/
def Byte.signed (b : Byte) : Int := b.toInt8.toInt

/-! ## All registers -/

/-- The registers that `TFR` and `EXG` can name. -/
inductive Register where
  | d | x | y | u | s | pc | a | b | cc | dp
deriving DecidableEq

namespace Register

/-- Every register, in the order of its code. -/
def all : List Register := [d, x, y, u, s, pc, a, b, cc, dp]

/-- How a register is written in a program. -/
def name : Register → String
  | d => "D" | x => "X" | y => "Y" | u => "U" | s => "S"
  | pc => "PC" | a => "A" | b => "B" | cc => "CC" | dp => "DP"

/-- The register of a name, in upper case. -/
def ofName? (text : String) : Option Register := all.find? fun r => r.name == text

/-- The four bits that stand for a register in the post-byte of `TFR` and `EXG`. -/
def code : Register → Byte
  | d => 0x0 | x => 0x1 | y => 0x2 | u => 0x3 | s => 0x4
  | pc => 0x5 | a => 0x8 | b => 0x9 | cc => 0xA | dp => 0xB

/-- Whether a register holds sixteen bits. -/
def isWide : Register → Bool
  | d | x | y | u | s | pc => true
  | a | b | cc | dp => false

/-- How many hexadecimal digits show the register. -/
def digits (r : Register) : Nat := if r.isWide then 4 else 2

theorem mem_all (r : Register) : r ∈ all := by cases r <;> decide

theorem ofName?_name (r : Register) : ofName? r.name = some r := by cases r <;> decide

end Register

/-! ## Accumulators -/

/-- The two 8-bit accumulators. -/
inductive Accumulator where
  | a | b
deriving DecidableEq

namespace Accumulator

/-- Both accumulators. -/
def all : List Accumulator := [a, b]

/-- The accumulator as a register. -/
def register : Accumulator → Register
  | a => .a
  | b => .b

/-- How an accumulator is written at the end of a mnemonic. -/
def name (acc : Accumulator) : String := acc.register.name

end Accumulator

/-! ## Index registers -/

/-- The registers that can be the base of an indexed operand. -/
inductive IndexRegister where
  | x | y | u | s
deriving DecidableEq

namespace IndexRegister

/-- Every index register. -/
def all : List IndexRegister := [x, y, u, s]

/-- The index register as a register. -/
def register : IndexRegister → Register
  | x => .x
  | y => .y
  | u => .u
  | s => .s

/-- How an index register is written after the comma of an operand. -/
def name (r : IndexRegister) : String := r.register.name

/-- The index register of a name, in upper case. -/
def ofName? (text : String) : Option IndexRegister := all.find? fun r => r.name == text

/-- The byte after the opcode of an indexed instruction. -/
def postByte : IndexRegister → Byte
  | x => 0x84
  | y => 0xA4
  | u => 0xC4
  | s => 0xE4

/-- The index register that a post-byte stands for. -/
def ofPostByte? (byte : Byte) : Option IndexRegister := all.find? fun r => r.postByte == byte

theorem ofPostByte?_postByte (r : IndexRegister) : ofPostByte? r.postByte = some r := by
  cases r <;> decide

theorem ofName?_name (r : IndexRegister) : ofName? r.name = some r := by cases r <;> decide

end IndexRegister
end Teach6809
