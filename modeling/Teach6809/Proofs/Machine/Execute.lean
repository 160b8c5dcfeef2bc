import Teach6809.Machine
import Teach6809.Proofs.Instruction.Encoding

/-!
# What instructions do to control

An instruction that only computes leaves program, call stack and halt as they were
(`Machine.SameControl`) and lets control go on. The opcode map gives such an instruction no other
operand than one with a value or an address, so it cannot fail. Main statement:
`execute_of_fallsThrough`, one lemma for all of these instructions.
-/

namespace Teach6809

/-- Whether control always goes on to the next instruction, as long as `PC` is not written. -/
def Mnemonic.fallsThrough : Mnemonic → Bool
  | .branch _ | .bsr | .jsr | .jmp | .rts | .swi | .stop => false
  | _ => true

/-- Whether an instruction sends control to labels only: no jump or call to an address that is
computed or given as a number, no register moved to `PC`. -/
def CheckedInstruction.keepsToLabels (i : CheckedInstruction) : Bool :=
  match i.mnemonic, i.operand with
  | .jmp, .label _ | .jsr, .label _ => true
  | .jmp, _ | .jsr, _ => false
  | .tfr, .pair _ target => target != .pc
  | .exg, .pair left right => left != .pc && right != .pc
  | _, _ => true

namespace Machine

variable {m after : Machine} {operand : Operand}

/-! ## Operands -/

/-- The modes that have a row in the opcode map lead to an address, immediate values apart. -/
theorem address_ok (m : Machine) (hrow : operand.mode.row?.isSome = true)
    (himmediate : operand.mode ≠ .immediate) : ∃ address, m.address operand = .ok address := by
  cases operand with
  | direct low => exact ⟨_, rfl⟩
  | extended address => exact ⟨_, rfl⟩
  | indexed offset base => exact ⟨_, rfl⟩
  | immediate value => exact absurd rfl himmediate
  | _ => cases hrow

/-- A byte can be read in every mode of a memory operand. -/
theorem readByte_ok (m : Machine) (hrow : operand.mode.row?.isSome = true) :
    ∃ value, m.readByte operand = .ok value := by
  by_cases himmediate : operand.mode = .immediate
  · cases operand with
    | immediate value => exact ⟨value, rfl⟩
    | _ => cases himmediate
  · obtain ⟨address, haddress⟩ := m.address_ok hrow himmediate
    refine ⟨(m.data.read address).toUInt16, ?_⟩
    unfold readByte
    split
    · exact absurd rfl himmediate
    · rw [haddress]
      rfl

/-- A word can be read in every mode of a memory operand. -/
theorem readWord_ok (m : Machine) (hrow : operand.mode.row?.isSome = true) :
    ∃ value, m.readWord operand = .ok value := by
  by_cases himmediate : operand.mode = .immediate
  · cases operand with
    | immediate value => exact ⟨value, rfl⟩
    | _ => cases himmediate
  · obtain ⟨address, haddress⟩ := m.address_ok hrow himmediate
    refine ⟨m.data.readWord address, ?_⟩
    unfold readWord
    split
    · exact absurd rfl himmediate
    · rw [haddress]
      rfl

/-! ## The same control -/

/-- The machines agree on program, call stack and halt. -/
structure SameControl (m after : Machine) : Prop where
  program : after.program = m.program
  callStack : after.callStack = m.callStack
  halt : after.halt = m.halt

namespace SameControl

theorem refl (m : Machine) : m.SameControl m := ⟨rfl, rfl, rfl⟩

theorem trans {n : Machine} (h : m.SameControl n) (h' : n.SameControl after) :
    m.SameControl after :=
  ⟨h'.program.trans h.program, h'.callStack.trans h.callStack, h'.halt.trans h.halt⟩

/-- Of all registers only `PC` has to do with the halt. -/
theorem set {r : Register} (hr : r ≠ .pc) (value : Word) : m.SameControl (m.set r value) := by
  refine ⟨rfl, rfl, ?_⟩
  show (if r = .pc then none else m.halt) = m.halt
  rw [if_neg hr]

theorem setAccumulator (acc : Accumulator) (value : Byte) :
    m.SameControl (m.setAccumulator acc value) := by
  apply SameControl.set
  cases acc <;> decide

theorem setFlags (flags : Flags) : m.SameControl (m.setFlags flags) := ⟨rfl, rfl, rfl⟩

end SameControl

/-! ## Instructions that compute -/

/-- A load cannot fail, and control stays where it is. -/
theorem load_ok (m : Machine) (target : MovedRegister) (hrow : operand.mode.row?.isSome = true) :
    ∃ after, m.load target operand = .ok after ∧ m.SameControl after := by
  unfold load
  by_cases hwide : target.isWide = true
  · obtain ⟨value, hvalue⟩ := m.readWord_ok hrow
    rw [if_pos hwide, hvalue]
    exact ⟨_, rfl, rfl, rfl, rfl⟩
  · obtain ⟨value, hvalue⟩ := m.readByte_ok hrow
    rw [if_neg hwide, hvalue]
    exact ⟨_, rfl, rfl, rfl, rfl⟩

/-- A store cannot fail, and control stays where it is. -/
theorem storeRegister_ok (m : Machine) (source : MovedRegister)
    (hrow : operand.mode.row?.isSome = true) (himmediate : operand.mode ≠ .immediate) :
    ∃ after, m.storeRegister source operand = .ok after ∧ m.SameControl after := by
  obtain ⟨address, haddress⟩ := m.address_ok hrow himmediate
  unfold storeRegister
  rw [haddress]
  by_cases hwide : source.isWide = true
  · exact ⟨_, if_pos hwide, rfl, rfl, rfl⟩
  · exact ⟨_, if_neg hwide, rfl, rfl, rfl⟩

/-- An operation with an operand cannot fail, and control stays where it is. -/
theorem binary_ok (m : Machine) (operation : BinaryOperation) (acc : Accumulator)
    (hrow : operand.mode.row?.isSome = true) :
    ∃ after, m.binary operation acc operand = .ok after ∧ m.SameControl after := by
  obtain ⟨value, hvalue⟩ := m.readByte_ok hrow
  unfold binary
  rw [hvalue]
  refine ⟨_, rfl, ?_⟩
  split
  · exact (SameControl.setFlags _).trans (.setAccumulator acc _)
  · exact .setFlags _

theorem unary_sameControl (m : Machine) (operation : UnaryOperation) (acc : Accumulator) :
    m.SameControl (m.unary operation acc) :=
  (SameControl.setFlags _).trans (.setAccumulator acc _)

/-- Only a transfer to `PC` sends control elsewhere. -/
theorem transfer_of_ne_pc (m : Machine) (source : Register) {target : Register}
    (htarget : target ≠ .pc) :
    (m.transfer source target).2 = .next ∧ m.SameControl (m.transfer source target).1 :=
  ⟨if_neg htarget, .set htarget _⟩

/-- An exchange that does not concern the program counter leaves control alone. -/
theorem exchange_of_ne_pc (m : Machine) {left right : Register} (hleft : left ≠ .pc)
    (hright : right ≠ .pc) :
    (m.exchange left right).2 = .next ∧ m.SameControl (m.exchange left right).1 := by
  refine ⟨if_neg ?_, (SameControl.set hleft _).trans (.set hright _)⟩
  rintro (h | h)
  · exact hleft h
  · exact hright h

/-- An instruction that only computes answers, lets control go on and leaves the rest of the control
state as it was. -/
theorem execute_of_fallsThrough (m : Machine) {labels : LabelTable} {i : CheckedInstruction}
    (hi : i.Sound labels) (hfalls : i.mnemonic.fallsThrough = true)
    (hlabels : i.keepsToLabels = true) (next : Word) :
    ∃ after, m.execute i.mnemonic i.operand next = .ok (after, .next) ∧ m.SameControl after := by
  have hopcode := hi.opcode
  rw [← hi.mode] at hopcode
  unfold CheckedInstruction.keepsToLabels at hlabels
  -- The opcode map restricts the mode of the operand, mnemonic by mnemonic.
  cases hmnemonic : i.mnemonic with
  | load target =>
    rw [hmnemonic] at hopcode
    obtain ⟨row, hrow, -⟩ := Option.map_eq_some_iff.mp hopcode
    obtain ⟨after, hafter, hsame⟩ := m.load_ok target (by rw [hrow]; rfl)
    exact ⟨after, by rw [execute, hafter]; rfl, hsame⟩
  | store source =>
    rw [hmnemonic] at hopcode
    simp only [Mnemonic.opcode?] at hopcode
    split at hopcode
    · cases hopcode
    · rename_i himmediate
      obtain ⟨row, hrow, -⟩ := Option.map_eq_some_iff.mp hopcode
      obtain ⟨after, hafter, hsame⟩ := m.storeRegister_ok source (by rw [hrow]; rfl) himmediate
      exact ⟨after, by rw [execute, hafter]; rfl, hsame⟩
  | binary operation acc =>
    rw [hmnemonic] at hopcode
    obtain ⟨row, hrow, -⟩ := Option.map_eq_some_iff.mp hopcode
    obtain ⟨after, hafter, hsame⟩ := m.binary_ok operation acc (by rw [hrow]; rfl)
    exact ⟨after, by rw [execute, hafter]; rfl, hsame⟩
  | unary operation acc => exact ⟨_, rfl, m.unary_sameControl operation acc⟩
  | nop => exact ⟨m, rfl, .refl m⟩
  | tfr =>
    rw [hmnemonic] at hopcode hlabels
    obtain ⟨source, target, hpair⟩ := Operand.pair_of_mode (Mnemonic.mode_of_only hopcode)
    rw [hpair] at hlabels ⊢
    obtain ⟨hflow, hsame⟩ := m.transfer_of_ne_pc source (bne_iff_ne.mp hlabels)
    exact ⟨_, congrArg Except.ok (Prod.ext rfl hflow), hsame⟩
  | exg =>
    rw [hmnemonic] at hopcode hlabels
    obtain ⟨left, right, hpair⟩ := Operand.pair_of_mode (Mnemonic.mode_of_only hopcode)
    rw [hpair] at hlabels ⊢
    obtain ⟨hleft, hright⟩ := (Bool.and_eq_true _ _).mp hlabels
    obtain ⟨hflow, hsame⟩ := m.exchange_of_ne_pc (bne_iff_ne.mp hleft) (bne_iff_ne.mp hright)
    exact ⟨_, congrArg Except.ok (Prod.ext rfl hflow), hsame⟩
  | _ =>
    rw [hmnemonic] at hfalls
    cases hfalls

/-! ## Steps -/

/-- The machine as an instruction finds it: the stores of the last one are forgotten. -/
def ready (m : Machine) : Machine := { m with writes := [] }

/-- A stopped machine stays as it is. -/
theorem step_of_halted {reason : Halt} (hhalt : m.halt = some reason) :
    m.step = (m, .ok (some reason)) := by
  unfold step
  split
  · rename_i other hother
    rw [hhalt] at hother
    cases hother
    rfl
  · rename_i hnone
    rw [hhalt] at hnone
    cases hnone

/-- A running machine looks for the instruction at the program counter. -/
theorem step_of_running (hhalt : m.halt = none) :
    m.step =
      match m.current? with
      | none =>
        if m.pc = UInt16.ofNat m.program.stop then
          ({ m.ready with halt := some .exhausted }, .ok (some .exhausted))
        else (m.ready.fault, .error (.unplaced (.noInstruction m.pc)))
      | some i =>
        match m.ready.execute i.mnemonic i.operand i.next with
        | .error cause => (m.ready.fault, .error (.placed cause i.line i.span))
        | .ok (after, flow) =>
          let done := ({ after with steps := after.steps + 1 } : Machine).follow i.next flow
          (done, .ok done.halt) := by
  rw [step]
  split
  · rename_i reason hreason
    rw [hhalt] at hreason
    cases hreason
  · rfl

/-- A step executes the instruction at the program counter and goes where it says. -/
theorem step_of_execute {i : PlacedInstruction} {flow : Flow} (hhalt : m.halt = none)
    (hcurrent : m.current? = some i)
    (hexecute : m.ready.execute i.mnemonic i.operand i.next = .ok (after, flow)) :
    m.step = (({ after with steps := after.steps + 1 } : Machine).follow i.next flow,
      .ok (({ after with steps := after.steps + 1 } : Machine).follow i.next flow).halt) := by
  rw [step_of_running hhalt, hcurrent]
  simp only [hexecute]

/-- At the end of the program the machine is exhausted. -/
theorem step_of_stop (hhalt : m.halt = none) (hcurrent : m.current? = none)
    (hpc : m.pc = UInt16.ofNat m.program.stop) :
    m.step = ({ m.ready with halt := some .exhausted }, .ok (some .exhausted)) := by
  rw [step_of_running hhalt, hcurrent]
  exact if_pos hpc

end Machine
end Teach6809
