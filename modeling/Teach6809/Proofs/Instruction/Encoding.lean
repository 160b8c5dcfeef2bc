import Teach6809.Program
import Teach6809.Proofs.Operand.Mode

/-!
# Encoded instructions

What `Instruction.check` guarantees is one structure, `CheckedInstruction.Sound`. From it follows
that an instruction takes exactly the bytes that were counted before the operand was encoded:
opcode, then `PlacedInstruction.field`, whose length depends on mnemonic and mode only. The byte
of a short branch is the distance to its target as a signed number (`displacement_eq_ok_iff`).
-/

namespace Teach6809

/-! ## Checked instructions -/

namespace CheckedInstruction

/-- The addressing mode of a checked instruction. -/
def mode (i : CheckedInstruction) : AddressingMode := i.instruction.mode

/-- What is known of an instruction that was checked against the labels of a program. -/
structure Sound (labels : LabelTable) (i : CheckedInstruction) : Prop where
  opcode : i.mnemonic.opcode? i.mode = some i.opcode
  mode : i.operand.mode = i.mode
  declares : ∀ name, i.operand = .label name → labels.declares name = true
  narrow : ∀ value, i.operand = .immediate value → i.mnemonic.immediateWidth = 1 →
    value.toNat ≤ 0xFF

theorem sound_of_check {labels : LabelTable} {i : Instruction} {c : CheckedInstruction}
    (h : i.check labels = .ok c) : c.Sound labels := by
  unfold Instruction.check at h
  split at h
  · cases h
  · rename_i opcode hopcode
    obtain ⟨operand, hread, rfl⟩ := Except.map_eq_ok.mp h
    have hlabel : ∀ {other}, operand = other →
        Operand.read labels i.mnemonic i.mode i.operand = .ok other := by
      intro other hother
      rw [hread, hother]
    exact
      { opcode := hopcode
        mode := Operand.mode_of_read hread
        declares := fun name hname => Operand.declares_of_read (hlabel hname)
        narrow := fun value hvalue => Operand.le_of_read (hlabel hvalue) }

end CheckedInstruction

/-- A mnemonic with one mode has no opcode in another. -/
theorem Mnemonic.mode_of_only {mode wanted : AddressingMode} {code : Byte} {o : Opcode}
    (h : only mode wanted code = some o) : mode = wanted := by
  by_cases hmode : mode = wanted
  · exact hmode
  · rw [only, if_neg hmode] at h
    cases h

theorem Operand.pair_of_mode {operand : Operand} (h : operand.mode = .registerPair) :
    ∃ source target, operand = .pair source target := by
  cases operand with
  | pair source target => exact ⟨source, target, rfl⟩
  | _ => cases h

theorem Operand.label_of_mode {operand : Operand} (h : operand.mode = .relative) :
    ∃ name, operand = .label name := by
  cases operand with
  | label name => exact ⟨name, rfl⟩
  | _ => cases h

/-- Only branches, calls and jumps take a label. -/
theorem Mnemonic.transfers_of_relative {m : Mnemonic} {o : Opcode}
    (h : m.opcode? .relative = some o) :
    (∃ condition, m = .branch condition) ∨ m = .bsr ∨ m = .jsr ∨ m = .jmp := by
  cases m with
  | branch condition => exact .inl ⟨condition, rfl⟩
  | bsr => exact .inr (.inl rfl)
  | jsr => exact .inr (.inr (.inl rfl))
  | jmp => exact .inr (.inr (.inr rfl))
  | _ => cases h

/-! ## Lengths -/

theorem Mnemonic.immediateWidth_eq (m : Mnemonic) :
    m.immediateWidth = 1 ∨ m.immediateWidth = 2 := by
  unfold immediateWidth
  split
  · split
    · exact .inr rfl
    · exact .inl rfl
  · exact .inl rfl

theorem Opcode.length_pos (o : Opcode) : 0 < o.length := by
  unfold length
  split <;> omega

namespace Operand

/-- The post-byte that names a pair of registers. -/
def pairByte : Operand → List Byte
  | .pair source target => [source.code <<< 4 ||| target.code]
  | _ => []

/-- Post-byte and operand bytes together are as long as the mode of the operand says. -/
theorem length_pairByte_append {m : Mnemonic} {next : Word} {address? : String → Option Word}
    {operand : Operand} {bytes : List Byte} (h : operand.bytes m next address? = .ok bytes) :
    (operand.pairByte ++ bytes).length = m.operandLength operand.mode := by
  cases operand with
  | absent => cases h; rfl
  | immediate value =>
    cases h
    rcases m.immediateWidth_eq with hw | hw <;>
      simp [pairByte, mode, Mnemonic.operandLength, Word.bytes, hw]
  | direct low => cases h; rfl
  | extended address => cases h; rfl
  | indexed offset base => cases h; rfl
  | pair source target => cases h; rfl
  | label name =>
    simp only [Operand.bytes] at h
    split at h
    · cases h
    · split at h
      · rename_i hshort
        obtain ⟨byte, -, rfl⟩ := Except.map_eq_ok.mp h
        simp [pairByte, mode, Mnemonic.operandLength, hshort]
      · rename_i hlong
        cases h
        simp [pairByte, mode, Mnemonic.operandLength, Word.bytes, hlong]

end Operand

namespace CheckedInstruction

theorem head_eq (i : CheckedInstruction) : i.head = i.opcode.bytes ++ i.operand.pairByte := by
  unfold head Operand.pairByte
  split <;> simp_all

theorem size_pos (i : CheckedInstruction) : 0 < i.size := by
  have h := i.opcode.length_pos
  unfold size
  omega

end CheckedInstruction

/-! ## Displacements -/

theorem Byte.signed_bounds (byte : Byte) : -128 ≤ byte.signed ∧ byte.signed ≤ 127 :=
  ⟨byte.toInt8.le_toInt, Int.le_of_lt_add_one byte.toInt8.toInt_lt⟩

theorem Byte.signed_ofInt {distance : Int} (hlow : -128 ≤ distance) (hhigh : distance ≤ 127) :
    Byte.signed (Int8.ofInt distance).toUInt8 = distance :=
  Int8.toInt_ofInt_of_le hlow (Int.lt_add_one_of_le hhigh)

/-- The displacement is the byte that stands for the distance when it is read as a signed number. -/
theorem displacement_eq_ok_iff {next target : Word} {byte : Byte} :
    displacement next target = .ok byte ↔ byte.signed = (target.toNat : Int) - next.toNat := by
  unfold displacement
  dsimp only
  constructor
  · intro h
    split at h
    · rename_i hrange
      cases h
      exact Byte.signed_ofInt hrange.1 hrange.2
    · cases h
  · intro h
    have hrange := byte.signed_bounds
    rw [h] at hrange
    rw [if_pos hrange, ← h]
    show Except.ok (Int8.ofInt byte.toInt8.toInt).toUInt8 = Except.ok byte
    rw [Int8.ofInt_toInt, UInt8.toUInt8_toInt8]

theorem kind_of_displacement {next target : Word} {cause : Cause}
    (h : displacement next target = .error cause) : cause.kind = .branchOutOfRange := by
  unfold displacement at h
  dsimp only at h
  split at h
  · cases h
  · cases h
    rfl

/-! ## Bytes of a placed instruction -/

namespace PlacedInstruction

/-- The bytes after the opcode. -/
def field (i : PlacedInstruction) : List Byte := i.operand.pairByte ++ i.operandBytes

theorem bytes_eq (i : PlacedInstruction) : i.bytes = i.opcode.bytes ++ i.field := by
  rw [bytes, CheckedInstruction.head_eq, field, List.append_assoc]

variable {labels : LabelTable} {address? : String → Option Word} {i : PlacedInstruction}

/-- The bytes after the opcode are as many as the mode of the instruction says. -/
theorem length_field (hi : i.Sound labels)
    (h : i.operand.bytes i.mnemonic i.next address? = .ok i.operandBytes) :
    i.field.length = i.mnemonic.operandLength i.mode := by
  rw [field, Operand.length_pairByte_append h, hi.mode]

/-- An instruction takes as many bytes as were counted before labels had addresses. -/
theorem length_bytes (hi : i.Sound labels)
    (h : i.operand.bytes i.mnemonic i.next address? = .ok i.operandBytes) :
    i.bytes.length = i.size := by
  rw [bytes_eq, List.length_append, length_field hi h, Opcode.length_bytes]
  rfl

end PlacedInstruction
end Teach6809
