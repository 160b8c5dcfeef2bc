import Teach6809.Proofs.Machine.Frame

/-!
# Arithmetic instructions

`ADD`, `SUB` and `CMP` fetch the byte that their operand stands for, `NEG`, `INC` and `DEC` work on
their accumulator alone. What accumulator and flags show after a step (`Machine.result`) is what the
operation computes from the bytes before it. Main statement: in every addressing mode and every
state this is arithmetic on numbers.
-/

namespace Teach6809
namespace Machine

variable {m after : Machine} {acc : Accumulator} {operand : Operand} {next : Word}

/-- The byte in an accumulator. -/
def byteIn (m : Machine) (acc : Accumulator) : Byte := (m.get acc.register).toUInt8

/-- What an accumulator and the flags show. -/
def result (m : Machine) (acc : Accumulator) : ByteResult := ⟨m.byteIn acc, m.flags⟩

/-! ## Instructions -/

theorem byteIn_setAccumulator (m : Machine) (acc : Accumulator) (value : Byte) :
    (m.setAccumulator acc value).byteIn acc = value := by
  have hvalue : value.toUInt16.toUInt8 = value := UInt8.toUInt8_toUInt16 value
  cases acc <;> exact (UInt8.toUInt8_toUInt16 _).trans hvalue

/-- What an operation leaves in the accumulator and the flags is its result. -/
theorem result_setAccumulator (m : Machine) (acc : Accumulator) (result : ByteResult) :
    ((m.setFlags result.flags).setAccumulator acc result.value).result acc = result := by
  have hflags : ((m.setFlags result.flags).setAccumulator acc result.value).flags =
      result.flags := flags_set acc.register_ne_cc _
  rw [Machine.result, byteIn_setAccumulator, hflags]

/-- An operation on an accumulator and an operand computes with the byte that was fetched. -/
theorem execute_binary {operation : BinaryOperation} {byte : Byte} (h : m.Fetches operand byte) :
    ∃ after, m.execute (.binary operation acc) operand next = .ok (after, .next) ∧
      after.flags = (operation.apply (m.byteIn acc) byte m.flags).flags ∧
      (operation ≠ .cmp → after.result acc = operation.apply (m.byteIn acc) byte m.flags) := by
  have hbyte : byte.toUInt16.toUInt8 = byte := UInt8.toUInt8_toUInt16 byte
  have hexecute : m.binary operation acc operand =
      .ok (if operation.keepsResult then
          (m.setFlags (operation.apply (m.byteIn acc) byte m.flags).flags).setAccumulator acc
            (operation.apply (m.byteIn acc) byte m.flags).value
        else m.setFlags (operation.apply (m.byteIn acc) byte m.flags).flags) := by
    unfold binary
    rw [h.readByte]
    show Except.ok _ = _
    rw [hbyte]
    rfl
  refine ⟨_, by rw [execute, hexecute]; rfl, ?_, ?_⟩
  · split
    · exact flags_set acc.register_ne_cc _
    · rfl
  · intro hcmp
    have hkeeps : operation.keepsResult = true := by
      cases operation with
      | cmp => exact absurd rfl hcmp
      | _ => rfl
    rw [if_pos hkeeps]
    exact m.result_setAccumulator acc _

/-! ## Steps -/

/-- Going on to the next instruction leaves the result alone. -/
theorem result_finish (after : Machine) (i : PlacedInstruction) :
    (after.finish i .next).result acc = after.result acc := by
  cases acc <;> rfl

theorem Fetches.ready {byte : Byte} (h : m.Fetches operand byte) :
    m.ready.Fetches operand byte := by
  cases h with
  | immediate h => exact .immediate h
  | memory h => exact .memory (m := m.ready) h

section

variable {i : PlacedInstruction} {byte : Byte} (hrunning : m.halt = none)
  (hcurrent : m.current? = some i)

include hrunning hcurrent

/-- Of a comparison only the flags are left. -/
theorem step_binary {operation : BinaryOperation} (hmnemonic : i.mnemonic = .binary operation acc)
    (h : m.Fetches i.operand byte) :
    m.step.1.flags = (operation.apply (m.byteIn acc) byte m.flags).flags ∧
      (operation ≠ .cmp → m.step.1.result acc = operation.apply (m.byteIn acc) byte m.flags) := by
  obtain ⟨after, hexecute, hflags, hresult⟩ := execute_binary h.ready
  rw [← hmnemonic] at hexecute
  rw [step_of_execute hrunning hcurrent hexecute]
  exact ⟨hflags, fun hcmp => (result_finish after i).trans (hresult hcmp)⟩

theorem step_unary {operation : UnaryOperation} (hmnemonic : i.mnemonic = .unary operation acc) :
    m.step.1.result acc = operation.apply (m.byteIn acc) m.flags := by
  have hexecute : m.ready.execute i.mnemonic i.operand i.next =
      .ok (m.ready.unary operation acc, .next) := by rw [hmnemonic, execute]
  rw [step_of_execute hrunning hcurrent hexecute]
  exact (result_finish _ i).trans (m.ready.result_setAccumulator acc _)

/-! ## What the steps compute -/

/-- Adding is adding integers. -/
theorem step_add (hmnemonic : i.mnemonic = .binary .add acc) (h : m.Fetches i.operand byte) :
    (m.step.1.result acc).Adds (m.byteIn acc) byte := by
  obtain ⟨-, hresult⟩ := step_binary hrunning hcurrent hmnemonic h
  rw [hresult (by decide)]
  exact Byte.add_adds _ _ _

/-- Subtracting is subtracting integers. -/
theorem step_sub (hmnemonic : i.mnemonic = .binary .sub acc) (h : m.Fetches i.operand byte) :
    (m.step.1.result acc).Subtracts (m.byteIn acc) byte m.flags := by
  obtain ⟨-, hresult⟩ := step_binary hrunning hcurrent hmnemonic h
  rw [hresult (by decide)]
  exact Byte.sub_subtracts _ _ _

/-- A comparison shows the flags of a difference that it does not keep. -/
theorem step_cmp (hmnemonic : i.mnemonic = .binary .cmp acc) (h : m.Fetches i.operand byte) :
    ∃ difference,
      ByteResult.Subtracts (m.byteIn acc) byte m.flags ⟨difference, m.step.1.flags⟩ := by
  obtain ⟨hflags, -⟩ := step_binary hrunning hcurrent hmnemonic h
  refine ⟨(Byte.sub (m.byteIn acc) byte m.flags).value, ?_⟩
  rw [hflags]
  exact Byte.sub_subtracts _ _ _

/-- Negating is subtracting from zero. -/
theorem step_neg (hmnemonic : i.mnemonic = .unary .neg acc) :
    (m.step.1.result acc).Subtracts 0 (m.byteIn acc) m.flags := by
  rw [step_unary hrunning hcurrent hmnemonic]
  show (Byte.neg _ _).Subtracts _ _ _
  rw [Byte.neg_eq_sub]
  exact Byte.sub_subtracts _ _ _

/-- Incrementing counts up by one and keeps the carry. -/
theorem step_inc (hmnemonic : i.mnemonic = .unary .inc acc) :
    (m.step.1.result acc).Counts (m.byteIn acc) 1 m.flags := by
  rw [step_unary hrunning hcurrent hmnemonic]
  exact Byte.inc_counts _ _

/-- Decrementing counts down by one and keeps the carry. -/
theorem step_dec (hmnemonic : i.mnemonic = .unary .dec acc) :
    (m.step.1.result acc).Counts (m.byteIn acc) (-1) m.flags := by
  rw [step_unary hrunning hcurrent hmnemonic]
  exact Byte.dec_counts _ _

end

end Machine

/-- Arithmetic instructions compute with numbers, whatever state a machine with an assembled program
is in. The operand of `ADD`, `SUB` and `CMP` stands for a byte, in the instruction or in the cell
that it names. -/
theorem arithmetic_of_assemble {source : String} {p : Program} (h : assemble source = .ok p)
    {m : Machine} (hm : m.program = p) (hrunning : m.halt = none) {i : PlacedInstruction}
    (hcurrent : m.current? = some i) (acc : Accumulator) :
    let after := m.step.1
    (∀ operation, i.mnemonic = .binary operation acc →
      m.step.2 = .ok none ∧ ∃ byte, m.Fetches i.operand byte ∧
        (operation = .add → (after.result acc).Adds (m.byteIn acc) byte) ∧
        (operation = .sub → (after.result acc).Subtracts (m.byteIn acc) byte m.flags) ∧
        (operation = .cmp →
          (∃ difference, ByteResult.Subtracts (m.byteIn acc) byte m.flags
            ⟨difference, after.flags⟩) ∧
          ∀ r, r ≠ .pc → r ≠ .cc → after.get r = m.get r)) ∧
    ∀ operation, i.mnemonic = .unary operation acc →
      m.step.2 = .ok none ∧
        (operation = .neg → (after.result acc).Subtracts 0 (m.byteIn acc) m.flags) ∧
        (operation = .inc → (after.result acc).Counts (m.byteIn acc) 1 m.flags) ∧
        (operation = .dec → (after.result acc).Counts (m.byteIn acc) (-1) m.flags) := by
  intro after
  have hp := assemble_wellFormed h
  have hsound : i.Sound p.labels := hp.sound i (Machine.mem_of_current? hp hm hcurrent)
  obtain ⟨houtcome, hframe⟩ := Machine.frame_of_step hp hm hrunning hcurrent
  have hok : m.ends i.toCheckedInstruction = false → m.step.2 = .ok none := fun hends =>
    houtcome.trans (congrArg Except.ok (hframe.goesOn hends))
  refine ⟨fun operation hmnemonic => ⟨hok (by rw [Machine.ends, hmnemonic]), ?_⟩,
    fun operation hmnemonic => ⟨hok (by rw [Machine.ends, hmnemonic]), ?_, ?_, ?_⟩⟩
  · obtain ⟨byte, hfetches⟩ := m.exists_fetches hsound hmnemonic
    refine ⟨byte, hfetches, ?_, ?_, ?_⟩
    · rintro rfl
      exact Machine.step_add hrunning hcurrent hmnemonic hfetches
    · rintro rfl
      exact Machine.step_sub hrunning hcurrent hmnemonic hfetches
    · rintro rfl
      -- That the registers stay is the frame of an instruction without destinations.
      refine ⟨Machine.step_cmp hrunning hcurrent hmnemonic hfetches,
        fun r hpc hcc => hframe.registers r hpc hcc ?_⟩
      simp [CheckedInstruction.destinations, hmnemonic]
  · rintro rfl
    exact Machine.step_neg hrunning hcurrent hmnemonic
  · rintro rfl
    exact Machine.step_inc hrunning hcurrent hmnemonic
  · rintro rfl
    exact Machine.step_dec hrunning hcurrent hmnemonic

/-- An addition in direct mode, with the direct page away from zero, that overflows without a
carry. -/
theorem arithmetic_of_assemble_overflow :
    ∃ p i, assemble " ADDA $10\n END" = .ok p ∧
      let m := (Machine.start p).performAll [.set .a 0x7F, .set .dp 0x20, .poke 0x2010 0x01]
      m.halt = none ∧ m.current? = some i ∧ i.mnemonic = .binary .add .a ∧
      (∃ byte, m.Fetches i.operand byte ∧ (m.step.1.result .a).Adds 0x7F byte) ∧
      m.step.1.result .a = ⟨0x80, ⟨true, true, false, true, false⟩⟩ := by
  obtain ⟨p, hp, htest⟩ := Except.exists_of_any
    (x := assemble " ADDA $10\n END")
    (q := fun p =>
      let m := (Machine.start p).performAll [.set .a 0x7F, .set .dp 0x20, .poke 0x2010 0x01]
      m.halt == none && m.current?.any (fun i => i.mnemonic == .binary .add .a) &&
        m.byteIn .a == 0x7F &&
        m.step.1.result .a == ⟨0x80, ⟨true, true, false, true, false⟩⟩) (by decide +kernel)
  simp only [Bool.and_eq_true, beq_iff_eq, Option.any_eq_true, and_assoc] at htest
  obtain ⟨hrunning, ⟨i, hi, hmnemonic⟩, hbyte, hresult⟩ := htest
  obtain ⟨hbinary, -⟩ := arithmetic_of_assemble hp
    ((Machine.start p).program_performAll
      [.set .a 0x7F, .set .dp 0x20, .poke 0x2010 0x01]) hrunning hi .a
  obtain ⟨-, byte, hfetches, hadds, -⟩ := hbinary _ hmnemonic
  rw [hbyte] at hadds
  exact ⟨p, i, hp, hrunning, hi, hmnemonic, ⟨byte, hfetches, hadds rfl⟩, hresult⟩

end Teach6809
