import Teach6809.Machine
import Teach6809.Proofs.Program.Image
import Teach6809.Proofs.RegisterFile

/-!
# Operands in memory

The machine takes operands from the program, never from the bytes of its image. Here they are read
from memory instead, by `Memory.operandAt?`, which knows the mnemonic and the mode and finds an
address in place of a label. Main statement: in an assembled program both are the same operand, up
to labels, which are found as the address the machine jumps to; so executing from the bytes is
executing from the program.
-/

namespace Teach6809

/-! ## Codes and displacements -/

namespace Register

/-- The register that four bits stand for. -/
def ofCode? (code : Byte) : Option Register := all.find? fun r => r.code == code

theorem ofCode?_code (r : Register) : ofCode? r.code = some r := by cases r <;> decide

/-- Both codes are found again in a post-byte. -/
theorem code_of_pairByte (source target : Register) :
    (source.code <<< 4 ||| target.code) >>> 4 = source.code ∧
      (source.code <<< 4 ||| target.code) &&& 0x0F = target.code := by
  have hall : ∀ source ∈ all, ∀ target ∈ all,
      (source.code <<< 4 ||| target.code) >>> 4 = source.code ∧
        (source.code <<< 4 ||| target.code) &&& 0x0F = target.code := by decide
  exact hall source source.mem_all target target.mem_all

end Register

theorem UInt16.ofInt_toNat (w : Word) : UInt16.ofInt (w.toNat : Int) = w := by
  have hw := w.toNat_lt
  have hmod : ((w.toNat : Int) % 2 ^ 16).toNat = w.toNat := by omega
  show UInt16.ofNat ((w.toNat : Int) % 2 ^ 16).toNat = w
  rw [hmod, UInt16.ofNat_toNat]

/-- A displacement leads from the address after a branch to its target. -/
theorem add_displacement {next target : Word} {byte : Byte}
    (h : displacement next target = .ok byte) :
    UInt16.ofInt (next.toNat + byte.signed) = target := by
  have hsum : (next.toNat : Int) + byte.signed = target.toNat := by
    rw [displacement_eq_ok_iff.mp h]
    omega
  rw [hsum, UInt16.ofInt_toNat]

/-! ## Reading operands from memory -/

/-- The mnemonics whose immediate operand takes two bytes. -/
def Mnemonic.wideLoads : List Mnemonic := [.load .x, .load .y, .load .u, .load .s]

theorem Mnemonic.immediateWidth_eq_two_iff (m : Mnemonic) :
    m.immediateWidth = 2 ↔ m ∈ wideLoads := by
  have hall : ∀ m ∈ all, m.immediateWidth = 2 ↔ m ∈ wideLoads := by decide
  exact hall m m.mem_all

/-- The operand that the bytes from an address on stand for. `next` is the address after the
instruction; in place of a label stands the address it leads to. -/
def Memory.operandAt? (memory : Memory) (m : Mnemonic) (mode : AddressingMode)
    (address next : Word) : Option Operand :=
  match mode with
  | .inherent => some .absent
  | .immediate =>
    some (.immediate
      (if m ∈ Mnemonic.wideLoads then memory.readWord address
      else (memory.read address).toUInt16))
  | .direct => some (.direct (memory.read address))
  | .extended => some (.extended (memory.readWord address))
  | .indexed =>
    (IndexRegister.ofPostByte? (memory.read address)).map fun base =>
      .indexed (memory.read (address + 1)).toInt8 base
  | .relative =>
    some (.extended
      (if m.isShortBranch then UInt16.ofInt (next.toNat + (memory.read address).signed)
      else memory.readWord address))
  | .registerPair => do
    let source ← Register.ofCode? (memory.read address >>> 4)
    let target ← Register.ofCode? (memory.read address &&& 0x0F)
    return .pair source target

/-- An operand with the address in place of a label. -/
def Operand.located (address? : String → Option Word) : Operand → Operand
  | .label name =>
    match address? name with
    | some address => .extended address
    | none => .label name
  | operand => operand

/-- A word is read back from its bytes. -/
theorem Memory.readWord_eq {memory : Memory} {address w : Word}
    (hread : ∀ j value, (Word.bytes w)[j]? = some value →
      memory.read (address + UInt16.ofNat j) = value) :
    memory.readWord address = w := by
  have hhigh : memory.read address = Word.high w := by
    have h := hread 0 _ rfl
    rwa [show address + UInt16.ofNat 0 = address from UInt16.add_zero _] at h
  have hlow : memory.read (address + 1) = Word.low w := hread 1 _ rfl
  rw [readWord, hhigh, hlow, Word.ofBytes_high_low]

/-- The bytes of an operand are read back as the operand. -/
theorem Memory.operandAt?_eq {memory : Memory} {m : Mnemonic} {address next : Word}
    {address? : String → Option Word} {operand : Operand} {bytes : List Byte}
    (hbytes : operand.bytes m next address? = .ok bytes)
    (hnarrow : ∀ value, operand = .immediate value → m.immediateWidth = 1 → value.toNat ≤ 0xFF)
    (hread : ∀ j value, (operand.pairByte ++ bytes)[j]? = some value →
      memory.read (address + UInt16.ofNat j) = value) :
    memory.operandAt? m operand.mode address next = some (operand.located address?) := by
  have hfirst : ∀ value, (operand.pairByte ++ bytes)[0]? = some value →
      memory.read address = value := by
    intro value hvalue
    have h := hread 0 value hvalue
    rwa [show address + UInt16.ofNat 0 = address from UInt16.add_zero _] at h
  -- For each shape the bytes are known, so each read is known, and the encoding is inverted.
  cases operand with
  | absent => rfl
  | immediate value =>
    have hwidth := m.immediateWidth_eq_two_iff
    cases hbytes
    unfold operandAt? Operand.mode Operand.located
    by_cases hwide : m.immediateWidth = 2
    · rw [if_pos hwide] at hread
      rw [if_pos (hwidth.mp hwide), readWord_eq hread]
    · rw [if_neg hwide] at hfirst
      have hone : m.immediateWidth = 1 := by
        have := m.immediateWidth_eq
        omega
      rw [if_neg (fun h => hwide (hwidth.mpr h)), hfirst _ rfl,
        Word.toUInt16_low (hnarrow value rfl hone)]
  | direct low =>
    cases hbytes
    unfold operandAt? Operand.mode Operand.located
    rw [hfirst low rfl]
  | extended target =>
    cases hbytes
    unfold operandAt? Operand.mode Operand.located
    rw [readWord_eq hread]
  | indexed offset base =>
    cases hbytes
    unfold operandAt? Operand.mode Operand.located
    have hoffset : memory.read (address + 1) = offset.toUInt8 := hread 1 _ rfl
    rw [hfirst _ rfl, hoffset, IndexRegister.ofPostByte?_postByte, Int8.toInt8_toUInt8]
    rfl
  | label name =>
    simp only [Operand.bytes] at hbytes
    split at hbytes
    · cases hbytes
    · rename_i target htarget
      simp only [operandAt?, Operand.mode, Operand.located, htarget]
      split at hbytes
      · rename_i hshort
        obtain ⟨byte, hbyte, rfl⟩ := Except.map_eq_ok.mp hbytes
        rw [if_pos hshort, hfirst byte rfl, add_displacement hbyte]
      · rename_i hlong
        cases hbytes
        rw [if_neg hlong, readWord_eq hread]
  | pair source target =>
    cases hbytes
    obtain ⟨hsource, htarget⟩ := Register.code_of_pairByte source target
    unfold operandAt? Operand.mode Operand.located
    rw [hfirst _ rfl, hsource, htarget, Register.ofCode?_code, Register.ofCode?_code]
    rfl

/-! ## Executing an operand from memory -/

/-- An instruction does the same with the address of a label as with the label. -/
theorem Machine.execute_located (machine : Machine) {m : Mnemonic} {operand : Operand} {o : Opcode}
    (ho : m.opcode? operand.mode = some o) (next : Word) :
    machine.execute m (operand.located machine.program.labelTarget?) next =
      machine.execute m operand next := by
  cases operand with
  | label name =>
    cases haddress : machine.program.labelTarget? name with
    | none => simp only [Operand.located, haddress]
    | some address =>
      have htarget : machine.target (.extended address) = machine.target (.label name) := by
        simp only [target, haddress]
        rfl
      simp only [Operand.located, haddress]
      rcases Mnemonic.transfers_of_relative ho with ⟨condition, rfl⟩ | rfl | rfl | rfl <;>
        simp only [execute, htarget]
  | _ => rfl

namespace Program

variable {p : Program} {i : PlacedInstruction}

/-- The operand of an instruction is found behind its opcode. -/
theorem WellFormed.operandAt?_store (hp : p.WellFormed) (hi : i ∈ p.lines) :
    p.store.operandAt? i.mnemonic i.mode (i.address + UInt16.ofNat i.opcode.length) i.next =
      some (i.operand.located p.labelTarget?) := by
  have hsound := hp.sound i hi
  rw [← hsound.mode]
  refine Memory.operandAt?_eq (hp.resolved i hi) hsound.narrow fun j value hj => ?_
  have hplace : i.address + UInt16.ofNat i.opcode.length + UInt16.ofNat j =
      i.address + UInt16.ofNat (i.opcode.length + j) := by
    rw [UInt16.add_assoc, UInt16.ofNat_add]
  rw [hplace]
  exact hp.read_store_field hi hj

/-- An instruction with a label has bytes only because the label has an address. -/
theorem WellFormed.labelTarget?_of_label (hp : p.WellFormed) (hi : i ∈ p.lines) {name : String}
    (hlabel : i.operand = .label name) : ∃ target, p.labelTarget? name = some target := by
  have hbytes := hp.resolved i hi
  rw [hlabel] at hbytes
  cases htarget : p.labelTarget? name with
  | none =>
    simp only [Operand.bytes, htarget] at hbytes
    cases hbytes
  | some target => exact ⟨target, rfl⟩

end Program

/-- In an assembled program the bytes behind the opcode of an instruction stand for the operand that
the machine uses: the same operand, or the address that the machine finds for a label. Executing the
operand in memory is executing the instruction, and an immediate operand takes two bytes exactly in
the loads of `X`, `Y`, `U` and `S`. -/
theorem operand_of_assemble {source : String} {p : Program} (h : assemble source = .ok p)
    {i : PlacedInstruction} (hi : i ∈ p.lines) {m : Machine} (hm : m.program = p) :
    ∃ operand,
      p.store.operandAt? i.mnemonic i.mode (i.address + UInt16.ofNat i.opcode.length)
        (i.address + UInt16.ofNat i.size) = some operand ∧
      (∀ name, i.operand = .label name →
        ∃ target, operand = .extended target ∧ m.target i.operand = .ok target) ∧
      ((∀ name, i.operand ≠ .label name) → operand = i.operand) ∧
      m.execute i.mnemonic operand i.next = m.execute i.mnemonic i.operand i.next ∧
      (i.mode = .immediate →
        i.bytes.length = i.opcode.length + if i.mnemonic ∈ Mnemonic.wideLoads then 2 else 1) := by
  have hp := assemble_wellFormed h
  have hsound := hp.sound i hi
  refine ⟨i.operand.located p.labelTarget?, hp.operandAt?_store hi, ?_, ?_, ?_, ?_⟩
  · intro name hlabel
    obtain ⟨target, htarget⟩ := hp.labelTarget?_of_label hi hlabel
    refine ⟨target, ?_, ?_⟩
    · simp only [hlabel, Operand.located, htarget]
    · simp only [hlabel, Machine.target, hm, htarget]
  · -- Only a label is stored as something else, its address.
    intro hother
    cases hoperand : i.operand with
    | label name => exact absurd hoperand (hother name)
    | _ => rfl
  · have hopcode := hsound.opcode
    rw [← hsound.mode] at hopcode
    rw [← hm]
    exact m.execute_located hopcode i.next
  · intro hmode
    have hwidth := i.mnemonic.immediateWidth_eq
    have hwide := i.mnemonic.immediateWidth_eq_two_iff
    rw [hp.length_bytes hi, CheckedInstruction.size]
    show i.opcode.length + i.mnemonic.operandLength i.mode = _
    rw [hmode]
    show i.opcode.length + i.mnemonic.immediateWidth = _
    split
    · rename_i hmem
      rw [hwide.mpr hmem]
    · rename_i hmem
      have : i.mnemonic.immediateWidth ≠ 2 := fun htwo => hmem (hwide.mp htwo)
      omega

/-- A branch back, a jump to a label below `END` and a wide load. -/
theorem operand_of_assemble_past :
    ∃ p, assemble "BACK: LDX #$1234\n BNE BACK\n JMP PAST\nEND\nPAST:" = .ok p ∧
      p.lines.map (fun i => p.store.operandAt? i.mnemonic i.mode
          (i.address + UInt16.ofNat i.opcode.length) (i.address + UInt16.ofNat i.size)) =
        [some (.immediate 0x1234), some (.extended 0xFE00), some (.extended 0xFE09),
          some .absent] ∧
      ∀ i ∈ p.lines, ∃ operand,
        p.store.operandAt? i.mnemonic i.mode (i.address + UInt16.ofNat i.opcode.length)
          (i.address + UInt16.ofNat i.size) = some operand ∧
        (Machine.start p).execute i.mnemonic operand i.next =
          (Machine.start p).execute i.mnemonic i.operand i.next := by
  obtain ⟨p, hp, hoperands⟩ := Except.exists_of_any
    (x := assemble "BACK: LDX #$1234\n BNE BACK\n JMP PAST\nEND\nPAST:")
    (q := fun p => p.lines.map (fun i => p.store.operandAt? i.mnemonic i.mode
        (i.address + UInt16.ofNat i.opcode.length) (i.address + UInt16.ofNat i.size)) ==
      [some (.immediate 0x1234), some (.extended 0xFE00), some (.extended 0xFE09), some .absent])
    (by decide +kernel)
  refine ⟨p, hp, by simpa using hoperands, fun i hi => ?_⟩
  obtain ⟨operand, hoperand, -, -, hexecute, -⟩ := operand_of_assemble hp hi (m := .start p) rfl
  exact ⟨operand, hoperand, hexecute⟩

end Teach6809
