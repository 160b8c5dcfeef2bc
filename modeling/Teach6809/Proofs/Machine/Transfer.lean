import Teach6809.Proofs.Machine.CarriesOut
import Teach6809.Proofs.RegisterFile

/-!
# Moving registers

`TFR` copies a register to another, `EXG` exchanges two. The registers differ in width and two of
them share storage with a third, so a register reads afterwards as what it can hold of the value
moved to it, and every register apart from those written reads as before. Main statement: this is so
in every state, for every pair of registers, and a value moved to `PC` is where execution goes on.
-/

namespace Teach6809

/-! ## Exchanged registers -/

namespace RegisterFile

/-- Exchanges two registers, the left one written first. -/
def exchange (f : RegisterFile) (left right : Register) : RegisterFile :=
  (f.set left (f.get right)).set right (f.get left)

variable (f : RegisterFile) {left right : Register}

/-- The right register has what was in the left one. -/
theorem get_exchange_right : (f.exchange left right).get right = right.narrow (f.get left) :=
  get_set_self _ right _

/-- Writing the second register keeps the first if they share no storage. -/
theorem get_exchange_left (hapart : left.overlaps right = false) :
    (f.exchange left right).get left = left.narrow (f.get right) :=
  calc (f.exchange left right).get left
      = (f.set left (f.get right)).get left := get_set_of_disjoint _ hapart _
    _ = left.narrow (f.get right) := get_set_self f left _

/-- Registers that share nothing with the two keep their values. -/
theorem get_exchange_of_disjoint {r : Register} (hleft : r.overlaps left = false)
    (hright : r.overlaps right = false) : (f.exchange left right).get r = f.get r :=
  (get_set_of_disjoint _ hright _).trans (get_set_of_disjoint f hleft _)

end RegisterFile

/-! ## Machines that move registers -/

namespace Machine

/-- The value that an instruction moves to `PC`. -/
def movedToPc? (m : Machine) (i : CheckedInstruction) : Option Word :=
  match i.mnemonic, i.operand with
  | .tfr, .pair source .pc => some (m.get source)
  | .exg, .pair left .pc => some (m.get left)
  | .exg, .pair .pc right => some (m.get right)
  | _, _ => none

/-- The second machine shows the given registers, `PC` only if the instruction wrote it, and nothing
else was done to it. -/
structure Moves (m : Machine) (i : CheckedInstruction) (registers : RegisterFile) (after : Machine)
    (outcome : Outcome) : Prop where
  program : after.program = m.program
  registers : ∀ r, (r = .pc → i.writesPc = true) → after.get r = registers.get r
  data : after.data = m.data
  callStack : after.callStack = m.callStack
  halt : after.halt = if i.writesPc then none else m.halt
  outcome : outcome = .ok after.halt

variable {m after : Machine} {i : CheckedInstruction} {outcome : Outcome} {left right : Register}
  {registers : RegisterFile}

/-- An instruction that writes registers and sends control to `PC` if it wrote it moves them. -/
theorem CarriesOut.moves (h : m.CarriesOut i after outcome)
    (hexecute : ∀ next, m.ready.execute i.mnemonic i.operand next =
      .ok ({ m.ready with registers, halt := if i.writesPc then none else m.halt },
        if i.writesPc then .jump registers.pc else .next)) :
    m.Moves i registers after outcome := by
  have hgoes : ∀ reason, (if i.writesPc then Flow.jump registers.pc else .next) ≠ .halt reason := by
    intro reason
    split <;> rintro ⟨⟩
  obtain ⟨hsame, houtcome, hjump⟩ := h.of_execute hexecute hgoes
  have hhalt : after.halt = if i.writesPc then none else m.halt := hsame.halt.symm
  refine ⟨hsame.program.symm, fun r hr => ?_, hsame.data.symm, hsame.callStack.symm, hhalt,
    houtcome.trans (congrArg Except.ok hhalt.symm)⟩
  -- `PC` is where control was sent; without a jump it is where the instruction left off.
  by_cases hpc : r = .pc
  · subst hpc
    exact hjump _ (if_pos (hr rfl))
  · exact (hsame.registers r hpc).symm

/-- A transfer writes the right register. -/
theorem CarriesOut.moves_tfr (h : m.CarriesOut i after outcome) (hmnemonic : i.mnemonic = .tfr)
    (hoperand : i.operand = .pair left right) :
    m.Moves i (m.registers.set right (m.get left)) after outcome := by
  have hpc : i.writesPc = (right == .pc) := by
    rw [CheckedInstruction.writesPc, hmnemonic, hoperand]
  refine h.moves fun next => ?_
  simp only [hpc, hmnemonic, hoperand, beq_iff_eq]
  rfl

/-- An exchange is one of the register file, and it jumps if the program counter takes part. -/
theorem exchange_eq (m : Machine) (left right : Register) :
    m.exchange left right =
      ({ m with
          registers := m.registers.exchange left right
          halt := if left = .pc ∨ right = .pc then none else m.halt },
        if left = .pc ∨ right = .pc then .jump (m.registers.exchange left right).pc
        else .next) := by
  have hhalt : (m.exchange left right).1.halt =
      if left = .pc ∨ right = .pc then none else m.halt := by
    by_cases hwrites : left = .pc ∨ right = .pc
    · rw [if_pos hwrites]
      exact halt_exchange_pc hwrites
    · obtain ⟨hleft, hright⟩ := not_or.mp hwrites
      rw [if_neg hwrites]
      exact (m.exchange_of_ne_pc hleft hright).2.halt
  rw [← hhalt]
  rfl

/-- An exchange writes both registers. -/
theorem CarriesOut.moves_exg (h : m.CarriesOut i after outcome) (hmnemonic : i.mnemonic = .exg)
    (hoperand : i.operand = .pair left right) :
    m.Moves i (m.registers.exchange left right) after outcome := by
  have hpc : i.writesPc = (left == .pc || right == .pc) := by
    rw [CheckedInstruction.writesPc, hmnemonic, hoperand]
  refine h.moves fun next => ?_
  simp only [hpc, hmnemonic, hoperand, Bool.or_eq_true, beq_iff_eq]
  exact congrArg Except.ok (m.ready.exchange_eq left right)

/-! ## Registers afterwards -/

/-- After a transfer the right register has the value of the left one, and nothing else has
changed. -/
theorem CarriesOut.get_of_tfr (h : m.CarriesOut i after outcome) (hmnemonic : i.mnemonic = .tfr)
    (hoperand : i.operand = .pair left right) :
    after.get right = right.narrow (m.get left) ∧
      ∀ r, r ≠ .pc → r.overlaps right = false → after.get r = m.get r := by
  have hmoves := h.moves_tfr hmnemonic hoperand
  have hpc : right = .pc → i.writesPc = true := by
    rintro rfl
    rw [CheckedInstruction.writesPc, hmnemonic, hoperand]
    rfl
  refine ⟨?_, fun r hr hdisjoint => ?_⟩
  · rw [hmoves.registers right hpc]
    exact m.registers.get_set_self right _
  · rw [hmoves.registers r fun heq => absurd heq hr]
    exact m.registers.get_set_of_disjoint hdisjoint _

/-- After an exchange of registers that share nothing each has the value of the other. -/
theorem CarriesOut.get_of_exg (h : m.CarriesOut i after outcome) (hmnemonic : i.mnemonic = .exg)
    (hoperand : i.operand = .pair left right) (hapart : left.overlaps right = false) :
    after.get left = left.narrow (m.get right) ∧ after.get right = right.narrow (m.get left) ∧
      ∀ r, r ≠ .pc → r.overlaps left = false → r.overlaps right = false →
        after.get r = m.get r := by
  have hmoves := h.moves_exg hmnemonic hoperand
  have hpc : left = .pc ∨ right = .pc → i.writesPc = true := by
    intro hwrites
    rw [CheckedInstruction.writesPc, hmnemonic, hoperand]
    simpa using hwrites
  refine ⟨?_, ?_, fun r hr hleft hright => ?_⟩
  · rw [hmoves.registers left fun heq => hpc (.inl heq)]
    exact m.registers.get_exchange_left hapart
  · rw [hmoves.registers right fun heq => hpc (.inr heq)]
    exact m.registers.get_exchange_right
  · rw [hmoves.registers r fun heq => absurd heq hr]
    exact m.registers.get_exchange_of_disjoint hleft hright

/-- Both instructions write registers and nothing else. -/
theorem CarriesOut.moves_of_pair (h : m.CarriesOut i after outcome)
    (hmnemonic : i.mnemonic = .tfr ∨ i.mnemonic = .exg) (hoperand : i.operand = .pair left right) :
    ∃ registers, m.Moves i registers after outcome := by
  rcases hmnemonic with hmnemonic | hmnemonic
  · exact ⟨_, h.moves_tfr hmnemonic hoperand⟩
  · exact ⟨_, h.moves_exg hmnemonic hoperand⟩

/-! ## Moves to `PC` -/

variable {value : Word}

/-- A value moved to `PC` is in `PC` when the registers were moved. -/
theorem CarriesOut.exists_moves (h : m.CarriesOut i after outcome)
    (hvalue : m.movedToPc? i = some value) :
    i.writesPc = true ∧ ∃ registers, m.Moves i registers after outcome ∧ registers.pc = value := by
  unfold movedToPc? at hvalue
  split at hvalue
  · rename_i source hmnemonic hoperand
    cases hvalue
    refine ⟨?_, _, h.moves_tfr hmnemonic hoperand, rfl⟩
    rw [CheckedInstruction.writesPc, hmnemonic, hoperand]
    rfl
  · rename_i left hmnemonic hoperand
    cases hvalue
    refine ⟨?_, _, h.moves_exg hmnemonic hoperand, rfl⟩
    rw [CheckedInstruction.writesPc, hmnemonic, hoperand]
    exact Bool.or_true _
  · rename_i right _ hmnemonic hoperand
    cases hvalue
    refine ⟨?_, _, h.moves_exg hmnemonic hoperand, ?_⟩
    · rw [CheckedInstruction.writesPc, hmnemonic, hoperand]
      rfl
    · cases right <;> rfl
  · cases hvalue

/-- Execution goes on at a value that was moved to `PC`, also in a machine that had stopped. -/
theorem CarriesOut.starting?_of_movedToPc? (h : m.CarriesOut i after outcome)
    (hvalue : m.movedToPc? i = some value) :
    after.pc = value ∧ after.halt = none ∧ after.starting? = m.program.at? value := by
  obtain ⟨hpc, registers, hmoves, rfl⟩ := h.exists_moves hvalue
  have hafter : after.pc = registers.pc := hmoves.registers .pc fun _ => hpc
  have hrunning : after.halt = none := by rw [hmoves.halt, if_pos hpc]
  refine ⟨hafter, hrunning, ?_⟩
  rw [starting?, hrunning, current?, hafter, hmoves.program]
  rfl

end Machine

/-- In every state and for every pair of registers, a register reads after `TFR` and `EXG` as what
it can hold of the value moved to it, if `EXG` was given two that share no storage; `PC` apart, the
registers that share no storage with those written read as before. Data memory and call stack stay,
and execution goes on at a value moved to `PC`. At all times `D` is `A` and `B`, and `CC` the flags
that are modelled. -/
theorem registers_moved {m after : Machine} {i : CheckedInstruction} {outcome : Machine.Outcome}
    (h : m.CarriesOut i after outcome) {left right : Register}
    (hoperand : i.operand = .pair left right) :
    (i.mnemonic = .tfr →
      after.get right = right.narrow (m.get left) ∧
        ∀ r, r ≠ .pc → r.overlaps right = false → after.get r = m.get r) ∧
    (i.mnemonic = .exg → left.overlaps right = false →
      after.get left = left.narrow (m.get right) ∧ after.get right = right.narrow (m.get left) ∧
        ∀ r, r ≠ .pc → r.overlaps left = false → r.overlaps right = false →
          after.get r = m.get r) ∧
    (i.mnemonic = .tfr ∨ i.mnemonic = .exg →
      outcome = .ok after.halt ∧ after.data = m.data ∧ after.callStack = m.callStack ∧
        ∀ value, m.movedToPc? i = some value →
          after.pc = value ∧ after.halt = none ∧ after.starting? = m.program.at? value) ∧
    ∀ n : Machine, (n.get .d).toNat = 256 * (n.get .a).toNat + (n.get .b).toNat ∧
      n.get .cc &&& 0x2F = n.get .cc := by
  refine ⟨fun hmnemonic => h.get_of_tfr hmnemonic hoperand,
    fun hmnemonic hapart => h.get_of_exg hmnemonic hoperand hapart, fun hmnemonic => ?_,
    fun n => ⟨n.registers.toNat_get_d, n.registers.get_cc_and⟩⟩
  obtain ⟨registers, hmoves⟩ := h.moves_of_pair hmnemonic hoperand
  exact ⟨hmoves.outcome, hmoves.data, hmoves.callStack,
    fun value hvalue => h.starting?_of_movedToPc? hvalue⟩

/-- An accumulator exchanged with the flags by a step, and a register moved to `PC` by hand. -/
theorem registers_moved_flags :
    ∃ p i j, assemble " EXG A,CC\n TFR X,PC\n END" = .ok p ∧
      let m := (Machine.start p).performAll [.set .a 0xFF, .set .x 0xFE04]
      m.halt = none ∧ m.current? = some i ∧
      Machine.readTyped m.program.labels "TFR X,PC" = .ok j ∧
      m.step.1.get .cc = 0x2F ∧ m.step.1.get .a = 0x04 ∧
      (m.evaluate "TFR X,PC").1.starting? = m.program.at? 0xFE04 := by
  obtain ⟨p, hp, htest⟩ := Except.exists_of_any
    (x := assemble " EXG A,CC\n TFR X,PC\n END")
    (q := fun p =>
      let m := (Machine.start p).performAll [.set .a 0xFF, .set .x 0xFE04]
      m.halt == none && m.get .a == 0xFF && m.get .cc == 0x04 &&
        m.current?.any (fun i => i.mnemonic == .exg && i.operand == .pair .a .cc) &&
        (Machine.readTyped m.program.labels "TFR X,PC").toOption.any fun j =>
          j.mnemonic == .tfr && j.operand == .pair .x .pc && m.movedToPc? j == some 0xFE04)
    (by decide +kernel)
  simp only [Bool.and_eq_true, beq_iff_eq] at htest
  obtain ⟨⟨⟨⟨hrunning, ha⟩, hcc⟩, hcurrent⟩, hread⟩ := htest
  obtain ⟨i, hi, hexg⟩ := (Option.any_eq_true _ _).mp hcurrent
  obtain ⟨j, hj, htfr⟩ := Except.exists_of_any hread
  simp only [Bool.and_eq_true, beq_iff_eq] at hexg htfr
  obtain ⟨-, hexchange, -⟩ := registers_moved (.stepped hrunning hi) hexg.2
  obtain ⟨hleft, hright, -⟩ := hexchange hexg.1 rfl
  obtain ⟨-, -, hmove, -⟩ := registers_moved (.typed hj) htfr.1.2
  obtain ⟨-, -, -, hpc⟩ := hmove (.inl htfr.1.1)
  rw [hcc] at hleft
  rw [ha] at hright
  exact ⟨p, i, j, hp, hrunning, hi, hj, hright, hleft, (hpc _ htfr.2).2.2⟩

end Teach6809
