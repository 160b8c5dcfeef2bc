import Teach6809.Proofs.Machine.Execute
import Teach6809.Proofs.RegisterFile

/-!
# The cells that operands name

An operand in memory names a cell of the data memory, and the number of the cell is plain
arithmetic (`Machine.cell?`): the direct page times 256 and the low byte, the address as it stands,
or an index register and a signed offset modulo 65536. Whatever the machine does with such an
operand it does at this cell. `Machine.Fetches` adds immediate operands, which are the byte itself.
-/

namespace Teach6809

/-- A signed byte counted as a word is its number modulo 65536. -/
theorem Int8.toNat_toUInt16_toInt16 (offset : Int8) :
    (offset.toInt16.toUInt16.toNat : Int) = offset.toInt % 65536 := by
  have hbits := BitVec.toNat_ofInt (n := 16) offset.toInt16.toBitVec.toInt
  rw [BitVec.ofInt_toInt] at hbits
  rw [← Int8.toInt_toInt16]
  show (offset.toInt16.toBitVec.toNat : Int) = offset.toInt16.toBitVec.toInt % 65536
  omega

namespace Machine

variable {m : Machine} {operand : Operand} {cell : Nat}

/-- The number of the data cell that an operand names. -/
def cell? (m : Machine) : Operand → Option Nat
  | .direct low => some ((m.get .dp).toNat * 256 + low.toNat)
  | .extended address => some address.toNat
  | .indexed offset base => some (((m.get base.register).toNat + offset.toInt) % 65536).toNat
  | _ => none

/-- The byte that an operand stands for: an immediate value, or what the named cell holds. -/
inductive Fetches (m : Machine) : Operand → Byte → Prop where
  | immediate {value : Word} {byte : Byte} (h : value.toNat = byte.toNat) :
      m.Fetches (.immediate value) byte
  | memory {operand : Operand} {cell : Nat} (h : m.cell? operand = some cell) :
      m.Fetches operand (m.data.read (UInt16.ofNat cell))

/-! ## Addresses -/

/-- The machine uses the cell that an operand names. -/
theorem address_of_cell? (h : m.cell? operand = some cell) :
    m.address operand = .ok (UInt16.ofNat cell) := by
  cases operand with
  | direct low =>
    cases h
    have hbytes := Word.toNat_ofBytes m.registers.dp low
    have hdp : (m.get .dp).toNat = m.registers.dp.toNat := UInt8.toNat_toUInt16 _
    refine congrArg Except.ok ?_
    rw [hdp, Nat.mul_comm, ← hbytes, UInt16.ofNat_toNat]
  | extended address =>
    cases h
    exact congrArg Except.ok UInt16.ofNat_toNat.symm
  | indexed offset base =>
    -- The offset is signed; in sixteen bits it is added modulo the size of memory.
    cases h
    have hoffset := Int8.toNat_toUInt16_toInt16 offset
    refine congrArg Except.ok (UInt16.toNat_inj.mp ?_)
    rw [UInt16.toNat_add, UInt16.toNat_ofNat']
    omega
  | _ => cases h

/-- A cell is an address. -/
theorem cell?_lt (h : m.cell? operand = some cell) : cell < 65536 := by
  cases operand with
  | direct low =>
    cases h
    have hlow : low.toNat < 256 := low.toNat_lt
    have hdp : (m.get .dp).toNat < 256 := by
      rw [show m.get .dp = m.registers.dp.toUInt16 from rfl, UInt8.toNat_toUInt16]
      exact UInt8.toNat_lt _
    omega
  | extended address =>
    cases h
    exact address.toNat_lt
  | indexed offset base =>
    cases h
    omega
  | _ => cases h

/-- An operand that has an address names a cell. -/
theorem exists_cell? {address : Word} (h : m.address operand = .ok address) :
    ∃ cell, m.cell? operand = some cell := by
  cases operand with
  | direct low => exact ⟨_, rfl⟩
  | extended address => exact ⟨_, rfl⟩
  | indexed offset base => exact ⟨_, rfl⟩
  | _ => cases h

/-! ## What is read there -/

/-- A byte operand with a cell is read from there. -/
theorem readByte_of_cell? (h : m.cell? operand = some cell) :
    m.readByte operand = .ok (m.data.read (UInt16.ofNat cell)).toUInt16 := by
  unfold readByte
  split
  · cases h
  · rw [address_of_cell? h]
    rfl

/-- A word operand with a cell is read from there and the cell above. -/
theorem readWord_of_cell? (h : m.cell? operand = some cell) :
    m.readWord operand = .ok (m.data.readWord (UInt16.ofNat cell)) := by
  unfold readWord
  split
  · cases h
  · rw [address_of_cell? h]
    rfl

/-- The machine reads the byte that an operand stands for. -/
theorem Fetches.readByte {byte : Byte} (h : m.Fetches operand byte) :
    m.readByte operand = .ok byte.toUInt16 := by
  cases h with
  | immediate h =>
    refine congrArg Except.ok (UInt16.toNat_inj.mp ?_)
    rw [h, UInt8.toNat_toUInt16]
  | memory h => exact readByte_of_cell? h

/-- The checked operand of an operation on an accumulator stands for a byte. -/
theorem exists_fetches (m : Machine) {labels : LabelTable} {i : CheckedInstruction}
    (hi : i.Sound labels) {operation : BinaryOperation} {acc : Accumulator}
    (hmnemonic : i.mnemonic = .binary operation acc) : ∃ byte, m.Fetches i.operand byte := by
  have hopcode := hi.opcode
  rw [← hi.mode, hmnemonic] at hopcode
  obtain ⟨row, hrow, -⟩ := Option.map_eq_some_iff.mp hopcode
  by_cases himmediate : i.operand.mode = .immediate
  · cases hoperand : i.operand with
    | immediate value =>
      -- An immediate that does not fit the accumulator is refused when it is checked.
      have hnarrow := hi.narrow value hoperand (by rw [hmnemonic]; rfl)
      refine ⟨value.toUInt8, .immediate ?_⟩
      rw [UInt16.toNat_toUInt8]
      omega
    | _ =>
      rw [hoperand] at himmediate
      cases himmediate
  · obtain ⟨address, haddress⟩ := m.address_ok (by rw [hrow]; rfl) himmediate
    obtain ⟨cell, hcell⟩ := exists_cell? haddress
    exact ⟨_, .memory hcell⟩

end Machine
end Teach6809
