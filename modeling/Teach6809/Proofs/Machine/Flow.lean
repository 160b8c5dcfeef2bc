import Teach6809.Proofs.Machine.Execute

/-!
# What every instruction does

Where an instruction sends control can be seen before it is executed: from its mnemonic and operand,
and for branches and returns from the flags and the call stack (`Machine.transfers`,
`Machine.ends`). `Machine.Executed` collects what executing it then leaves of the rest: program,
count of steps, call stack and halt. Main statement: `executed`, that every instruction which is
executed does this.
-/

namespace Teach6809

/-- Whether an instruction moves a register to `PC`. -/
def CheckedInstruction.writesPc (i : CheckedInstruction) : Bool :=
  match i.mnemonic, i.operand with
  | .tfr, .pair _ target => target == .pc
  | .exg, .pair left right => left == .pc || right == .pc
  | _, _ => false

namespace Machine

/-- Whether an instruction sends control elsewhere: a jump, a call, a branch that is taken, a return
with an address to return to, or a register moved to `PC`. -/
def transfers (m : Machine) (i : CheckedInstruction) : Bool :=
  match i.mnemonic with
  | .branch condition => condition.holds m.flags
  | .jmp | .bsr | .jsr => true
  | .rts => !m.callStack.isEmpty
  | .tfr | .exg => i.writesPc
  | _ => false

/-- Whether an instruction ends the program: `END`, `SWI`, or a return with nowhere to return to. -/
def ends (m : Machine) (i : CheckedInstruction) : Bool :=
  match i.mnemonic with
  | .stop | .swi => true
  | .rts => m.callStack.isEmpty
  | _ => false

/-- The call stack after an instruction. -/
def stackAfter (m : Machine) (i : CheckedInstruction) (next : Word) : List Word :=
  match i.mnemonic with
  | .bsr | .jsr => next :: m.callStack
  | .rts => m.callStack.tail
  | _ => m.callStack

/-- What an instruction has done once it is executed. -/
structure Executed (m : Machine) (i : CheckedInstruction) (next : Word) (after : Machine)
    (flow : Flow) : Prop where
  program : after.program = m.program
  steps : after.steps = m.steps
  callStack : after.callStack = m.stackAfter i next
  halt : after.halt = if i.writesPc then none else m.halt
  transfers : (∃ target, flow = .jump target) ↔ m.transfers i = true
  ends : (∃ reason, flow = .halt reason) ↔ m.ends i = true
  /-- An instruction that ends the program does nothing else. -/
  same : m.ends i = true → after = m

variable {m after : Machine} {operand : Operand} {next : Word} {flow : Flow}
  {i : CheckedInstruction}

/-! ## Instructions that compute -/

/-- The machines agree on what instructions that compute leave alone. -/
structure Computes (m after : Machine) : Prop extends m.SameControl after where
  steps : after.steps = m.steps

/-- A load only computes. -/
theorem load_computes {target : MovedRegister} (h : m.load target operand = .ok after) :
    m.Computes after := by
  unfold load at h
  split at h
  all_goals
    obtain ⟨value, -, h⟩ := Except.bind_eq_ok.mp h
    cases h
    exact ⟨⟨rfl, rfl, rfl⟩, rfl⟩

/-- A store only computes. -/
theorem storeRegister_computes {source : MovedRegister}
    (h : m.storeRegister source operand = .ok after) : m.Computes after := by
  unfold storeRegister at h
  obtain ⟨address, -, h⟩ := Except.bind_eq_ok.mp h
  dsimp only at h
  split at h
  all_goals
    cases h
    exact ⟨⟨rfl, rfl, rfl⟩, rfl⟩

/-- An operation with an operand only computes. -/
theorem binary_computes {operation : BinaryOperation} {acc : Accumulator}
    (h : m.binary operation acc operand = .ok after) : m.Computes after := by
  unfold binary at h
  obtain ⟨value, -, h⟩ := Except.bind_eq_ok.mp h
  cases h
  split
  · exact ⟨(SameControl.setFlags _).trans (.setAccumulator acc _), rfl⟩
  · exact ⟨.setFlags _, rfl⟩

/-! ## Ways to go on -/

theorem writesPc_of_not_takesPair (h : i.mnemonic.takesPair = false) : i.writesPc = false := by
  unfold CheckedInstruction.writesPc
  cases hmnemonic : i.mnemonic with
  | tfr | exg =>
    rw [hmnemonic] at h
    cases h
  | _ => rfl

namespace Executed

/-- What only computes goes on to the next instruction. -/
theorem goesOn (h : m.Computes after) (hstack : m.stackAfter i next = m.callStack)
    (hpc : i.writesPc = false) (htransfers : m.transfers i = false) (hends : m.ends i = false) :
    m.Executed i next after .next where
  program := h.program
  steps := h.steps
  callStack := h.callStack.trans hstack.symm
  halt := by simp [hpc, h.halt]
  transfers := by simp [htransfers]
  ends := by simp [hends]
  same := by simp [hends]

/-- An instruction that transfers control jumps. -/
theorem jumps (target : Word) (hprogram : after.program = m.program)
    (hsteps : after.steps = m.steps) (hstack : after.callStack = m.stackAfter i next)
    (hhalt : after.halt = if i.writesPc then none else m.halt)
    (htransfers : m.transfers i = true) (hends : m.ends i = false) :
    m.Executed i next after (.jump target) where
  program := hprogram
  steps := hsteps
  callStack := hstack
  halt := hhalt
  transfers := by simp [htransfers]
  ends := by simp [hends]
  same := by simp [hends]

/-- An instruction that ends the program leaves the machine as it is. -/
theorem stops (reason : Halt) (hstack : m.stackAfter i next = m.callStack)
    (hpc : i.writesPc = false) (htransfers : m.transfers i = false) (hends : m.ends i = true) :
    m.Executed i next m (.halt reason) where
  program := rfl
  steps := rfl
  callStack := hstack.symm
  halt := by simp [hpc]
  transfers := by simp [htransfers]
  ends := by simp [hends]
  same _ := rfl

/-- After an instruction that only computes control goes on. -/
theorem computes (h : m.Computes after) (hfalls : i.mnemonic.fallsThrough = true)
    (hpair : i.mnemonic.takesPair = false) : m.Executed i next after .next := by
  have hside : m.stackAfter i next = m.callStack ∧ m.transfers i = false ∧ m.ends i = false := by
    unfold stackAfter Machine.transfers Machine.ends
    cases hmnemonic : i.mnemonic with
    | branch condition | bsr | jsr | jmp | rts | swi | stop =>
      rw [hmnemonic] at hfalls
      cases hfalls
    | tfr | exg =>
      rw [hmnemonic] at hpair
      cases hpair
    | _ => exact ⟨rfl, rfl, rfl⟩
  obtain ⟨hstack, htransfers, hends⟩ := hside
  exact goesOn h hstack (writesPc_of_not_takesPair hpair) htransfers hends

end Executed

/-! ## Families of instructions -/

/-- A return takes the latest return address, or ends the program if there is none. -/
theorem executed_return (hmnemonic : i.mnemonic = .rts)
    (h : m.execute .rts operand next = .ok (after, flow)) : m.Executed i next after flow := by
  have hpc : i.writesPc = false := writesPc_of_not_takesPair (by rw [hmnemonic]; rfl)
  have hstack : m.stackAfter i next = m.callStack.tail := by rw [stackAfter, hmnemonic]
  have htransfers : m.transfers i = !m.callStack.isEmpty := by rw [transfers, hmnemonic]
  have hends : m.ends i = m.callStack.isEmpty := by rw [Machine.ends, hmnemonic]
  rw [execute] at h
  split at h
  · rename_i address rest hcalled
    rw [hcalled] at hstack htransfers hends
    cases h
    exact .jumps address rfl rfl hstack.symm (by rw [hpc]; rfl) htransfers hends
  · rename_i hcalled
    rw [hcalled] at hstack htransfers hends
    cases h
    exact .stops .returned (hstack.trans hcalled.symm) hpc htransfers hends

/-- A branch jumps if its condition is met and goes on otherwise. -/
theorem executed_branch {condition : Condition} (hmnemonic : i.mnemonic = .branch condition)
    (h : m.execute (.branch condition) operand next = .ok (after, flow)) :
    m.Executed i next after flow := by
  have hpc : i.writesPc = false := writesPc_of_not_takesPair (by rw [hmnemonic]; rfl)
  have hstack : m.stackAfter i next = m.callStack := by rw [stackAfter, hmnemonic]
  have htransfers : m.transfers i = condition.holds m.flags := by rw [transfers, hmnemonic]
  have hends : m.ends i = false := by rw [Machine.ends, hmnemonic]
  rw [execute] at h
  split at h
  · rename_i htaken
    obtain ⟨target, -, heq⟩ := Except.map_eq_ok.mp h
    cases heq
    exact .jumps target rfl rfl hstack.symm (by rw [hpc]; rfl) (htransfers.trans htaken) hends
  · rename_i htaken
    cases h
    exact .goesOn ⟨.refl m, rfl⟩ hstack hpc (htransfers.trans (Bool.eq_false_iff.mpr htaken)) hends

/-- Transferring to the program counter is a jump that lets the machine go on. -/
theorem executed_transfer {source target : Register} (hmnemonic : i.mnemonic = .tfr)
    (hoperand : i.operand = .pair source target) :
    m.Executed i next (m.transfer source target).1 (m.transfer source target).2 := by
  have hpc : i.writesPc = (target == .pc) := by
    rw [CheckedInstruction.writesPc, hmnemonic, hoperand]
  have hstack : m.stackAfter i next = m.callStack := by rw [stackAfter, hmnemonic]
  have htransfers : m.transfers i = i.writesPc := by rw [transfers, hmnemonic]
  have hends : m.ends i = false := by rw [Machine.ends, hmnemonic]
  by_cases htarget : target = .pc
  · subst htarget
    exact .jumps _ rfl rfl hstack.symm (by rw [hpc]; rfl) (htransfers.trans hpc) hends
  · obtain ⟨hflow, hsame⟩ := m.transfer_of_ne_pc source htarget
    have hkept : i.writesPc = false := hpc.trans (beq_false_of_ne htarget)
    rw [hflow]
    exact .goesOn ⟨hsame, rfl⟩ hstack hkept (htransfers.trans hkept) hends

/-- Exchanging `PC` with another register lifts a halt, whichever of the two is written first. -/
theorem halt_exchange_pc {left right : Register} (h : left = .pc ∨ right = .pc) :
    (m.exchange left right).1.halt = none := by
  show (if right = .pc then none else if left = .pc then none else m.halt) = none
  by_cases hright : right = .pc
  · exact if_pos hright
  · rw [if_neg hright, if_pos (h.resolve_right hright)]

/-- Exchanging the program counter is a jump that lets the machine go on. -/
theorem executed_exchange {left right : Register} (hmnemonic : i.mnemonic = .exg)
    (hoperand : i.operand = .pair left right) :
    m.Executed i next (m.exchange left right).1 (m.exchange left right).2 := by
  have hpc : i.writesPc = (left == .pc || right == .pc) := by
    rw [CheckedInstruction.writesPc, hmnemonic, hoperand]
  have hstack : m.stackAfter i next = m.callStack := by rw [stackAfter, hmnemonic]
  have htransfers : m.transfers i = i.writesPc := by rw [transfers, hmnemonic]
  have hends : m.ends i = false := by rw [Machine.ends, hmnemonic]
  -- Either register may be the program counter, and then the exchange is a jump.
  by_cases hwrites : left = .pc ∨ right = .pc
  · have hflow : (m.exchange left right).2 = .jump (m.exchange left right).1.pc := if_pos hwrites
    have hmoved : i.writesPc = true := by
      rw [hpc, Bool.or_eq_true, beq_iff_eq, beq_iff_eq]
      exact hwrites
    rw [hflow]
    refine .jumps _ rfl rfl hstack.symm ?_ (htransfers.trans hmoved) hends
    rw [hmoved]
    exact halt_exchange_pc hwrites
  · obtain ⟨hleft, hright⟩ := not_or.mp hwrites
    obtain ⟨hflow, hsame⟩ := m.exchange_of_ne_pc hleft hright
    have hkept : i.writesPc = false := by
      rw [hpc, Bool.or_eq_false_iff]
      exact ⟨beq_false_of_ne hleft, beq_false_of_ne hright⟩
    rw [hflow]
    exact .goesOn ⟨hsame, rfl⟩ hstack hkept (htransfers.trans hkept) hends

/-- Only a pair of registers is read as one. -/
theorem pair_eq_ok {registers : Register × Register} (h : pair operand = .ok registers) :
    operand = .pair registers.1 registers.2 := by
  cases operand with
  | pair source target =>
    cases h
    rfl
  | _ => cases h

/-! ## All instructions -/

/-- Every instruction that is executed does what can be seen from it. -/
theorem executed (h : m.execute i.mnemonic i.operand next = .ok (after, flow)) :
    m.Executed i next after flow := by
  generalize hmnemonic : i.mnemonic = instruction at h
  cases instruction with
  | load target =>
    obtain ⟨loaded, hload, heq⟩ := Except.map_eq_ok.mp h
    cases heq
    exact .computes (load_computes hload) (by rw [hmnemonic]; rfl) (by rw [hmnemonic]; rfl)
  | store source =>
    obtain ⟨stored, hstore, heq⟩ := Except.map_eq_ok.mp h
    cases heq
    exact .computes (storeRegister_computes hstore) (by rw [hmnemonic]; rfl)
      (by rw [hmnemonic]; rfl)
  | binary operation acc =>
    obtain ⟨computed, hcompute, heq⟩ := Except.map_eq_ok.mp h
    cases heq
    exact .computes (binary_computes hcompute) (by rw [hmnemonic]; rfl) (by rw [hmnemonic]; rfl)
  | unary operation acc =>
    cases h
    exact .computes ⟨m.unary_sameControl operation acc, rfl⟩ (by rw [hmnemonic]; rfl)
      (by rw [hmnemonic]; rfl)
  | nop =>
    cases h
    exact .computes ⟨.refl m, rfl⟩ (by rw [hmnemonic]; rfl) (by rw [hmnemonic]; rfl)
  | rts => exact executed_return hmnemonic h
  | branch condition => exact executed_branch hmnemonic h
  | swi | stop =>
    cases h
    exact .stops _ (by rw [stackAfter, hmnemonic])
      (writesPc_of_not_takesPair (by rw [hmnemonic]; rfl)) (by rw [transfers, hmnemonic])
      (by rw [Machine.ends, hmnemonic])
  | bsr | jsr | jmp =>
    -- They differ in what they leave on the call stack only, which is read off the mnemonic.
    obtain ⟨target, -, heq⟩ := Except.map_eq_ok.mp h
    cases heq
    have hpc : i.writesPc = false := writesPc_of_not_takesPair (by rw [hmnemonic]; rfl)
    exact .jumps target rfl rfl (by rw [stackAfter, hmnemonic]) (by rw [hpc]; rfl)
      (by rw [transfers, hmnemonic]) (by rw [Machine.ends, hmnemonic])
  | tfr =>
    obtain ⟨registers, hpair, heq⟩ := Except.map_eq_ok.mp h
    have hexecuted : m.Executed i next _ _ := executed_transfer hmnemonic (pair_eq_ok hpair)
    rwa [heq] at hexecuted
  | exg =>
    obtain ⟨registers, hpair, heq⟩ := Except.map_eq_ok.mp h
    have hexecuted : m.Executed i next _ _ := executed_exchange hmnemonic (pair_eq_ok hpair)
    rwa [heq] at hexecuted

/-! ## Where control goes -/

/-- The target of a label is its address cut to sixteen bits. -/
theorem target_label {name : String} {target : Word} :
    m.target (.label name) = .ok target ↔ m.program.labelTarget? name = some target := by
  rw [Machine.target]
  split
  · rename_i address haddress
    rw [haddress, Except.ok.injEq, Option.some.injEq]
  · rename_i hnone
    rw [hnone]
    constructor <;> rintro ⟨⟩

/-- Where control keeps to labels no register transfer moves it. -/
theorem writesPc_of_keepsToLabels (h : i.keepsToLabels = true) : i.writesPc = false := by
  unfold CheckedInstruction.keepsToLabels at h
  unfold CheckedInstruction.writesPc
  split
  · rename_i source target hmnemonic hoperand
    rw [hmnemonic, hoperand] at h
    exact beq_false_of_ne (bne_iff_ne.mp h)
  · rename_i left right hmnemonic hoperand
    rw [hmnemonic, hoperand] at h
    obtain ⟨hleft, hright⟩ := Bool.and_eq_true_iff.mp h
    rw [beq_false_of_ne (bne_iff_ne.mp hleft), beq_false_of_ne (bne_iff_ne.mp hright)]
    rfl
  · rfl

/-- An instruction that sends control elsewhere, without a return and without moving a register to
`PC`, sends it to its operand. -/
theorem target_of_execute_jump {target : Word} (hreturn : i.mnemonic ≠ .rts)
    (hpc : i.writesPc = false)
    (h : m.execute i.mnemonic i.operand next = .ok (after, .jump target)) :
    ((∃ condition, i.mnemonic = .branch condition) ∨ i.mnemonic = .bsr ∨ i.mnemonic = .jsr ∨
      i.mnemonic = .jmp) ∧ m.target i.operand = .ok target := by
  have htransfers : m.transfers i = true := (executed h).transfers.mp ⟨target, rfl⟩
  unfold transfers at htransfers
  cases hmnemonic : i.mnemonic with
  | branch condition =>
    rw [hmnemonic] at h htransfers
    rw [execute, if_pos htransfers] at h
    obtain ⟨address, haddress, heq⟩ := Except.map_eq_ok.mp h
    cases heq
    exact ⟨.inl ⟨condition, rfl⟩, haddress⟩
  | bsr | jsr | jmp =>
    rw [hmnemonic] at h
    obtain ⟨address, haddress, heq⟩ := Except.map_eq_ok.mp h
    cases heq
    exact ⟨by simp, haddress⟩
  | rts => exact absurd hmnemonic hreturn
  | tfr | exg =>
    -- They jump only when they write the program counter.
    rw [hmnemonic, hpc] at htransfers
    cases htransfers
  | _ =>
    rw [hmnemonic] at htransfers
    cases htransfers

/-- Every instruction that can end the program has a reason of its own. -/
theorem reason_of_execute {reason : Halt}
    (h : m.execute i.mnemonic i.operand next = .ok (after, .halt reason)) :
    i.mnemonic = .stop ∧ reason = .finished ∨ i.mnemonic = .swi ∧ reason = .interrupted ∨
      i.mnemonic = .rts ∧ reason = .returned := by
  have hends : m.ends i = true := (executed h).ends.mp ⟨reason, rfl⟩
  unfold ends at hends
  split at hends
  · rename_i hmnemonic
    rw [hmnemonic] at h
    cases h
    exact .inl ⟨hmnemonic, rfl⟩
  · rename_i hmnemonic
    rw [hmnemonic] at h
    cases h
    exact .inr (.inl ⟨hmnemonic, rfl⟩)
  · rename_i hmnemonic
    rw [hmnemonic, execute] at h
    split at h <;> cases h
    exact .inr (.inr ⟨hmnemonic, rfl⟩)
  · cases hends

end Machine
end Teach6809
