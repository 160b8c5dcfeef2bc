import Teach6809.Memory
import Teach6809.Opcode

/-!
# Reading instructions back

An opcode in memory stands for one mnemonic and addressing mode. Three encodings have two
readings: `END` shares the opcode of `SWI`, and `JMP` and `JSR` to a label share that of the
extended address. The first entry in the order of `encodings` is the canonical one.
-/

namespace Teach6809

/-- An instruction read back from memory. -/
structure Decoded where
  mnemonic : Mnemonic
  mode : AddressingMode
  /-- The length of the whole instruction in bytes. -/
  length : Nat
deriving DecidableEq

/-- Every mnemonic with every addressing mode it has, canonical readings first. -/
def encodings : List (Mnemonic × AddressingMode) :=
  Mnemonic.all.flatMap fun m => m.modes.map fun mode => (m, mode)

/-- The canonical mnemonic and addressing mode of an opcode. -/
def Opcode.canonical? (o : Opcode) : Option (Mnemonic × AddressingMode) :=
  encodings.find? fun entry => entry.1.opcode? entry.2 == some o

/-- The opcode at an address, whether the machine has it or not. -/
def Memory.opcodeAt (m : Memory) (address : Word) : Opcode :=
  if m.read address = Opcode.pageByte then ⟨true, m.read (address + 1)⟩
  else ⟨false, m.read address⟩

/-- The instruction at an address. An indexed opcode has to be followed by the post-byte of an
index register. -/
def Memory.decode? (m : Memory) (address : Word) : Option Decoded := do
  let opcode := m.opcodeAt address
  let (mnemonic, mode) ← opcode.canonical?
  if mode = .indexed then
    let _ ← IndexRegister.ofPostByte? (m.read (address + UInt16.ofNat opcode.length))
  return ⟨mnemonic, mode, opcode.length + mnemonic.operandLength mode⟩

end Teach6809
