import Teach6809.Proofs.Machine.Step

/-!
# Instructions executed in place

An instruction can also change registers, flags, data memory and call stack one after the other, as
it goes along. Such a computation (`Machine.InPlace`) leaves behind what it has changed when it
fails. Everything that can fail is looked up before the first change, so an instruction executed in
place is atomic: it does what `Machine.execute` says, or nothing.

Main statement: a line typed by hand and executed in place does what `Machine.evaluate` says. If it
is refused, only the noted stores are forgotten; if it is executed, its effect on control stays
within bounds (`Machine.Contained`).
-/

namespace Teach6809
namespace Machine

/-! ## Computations in place -/

/-- A computation that changes a machine as it goes along. The changes made before it fails stay. -/
abbrev InPlace (ε α : Type) := EStateM ε Machine α

namespace InPlace

variable {ε α β : Type} {m : Machine}

/-- Asks the machine for something that is always there. -/
def ask (f : Machine → α) : InPlace ε α := fun m => .ok (f m) m

/-- Looks for something in the machine, which may fail. -/
def look (f : Machine → Except ε α) : InPlace ε α := fun m =>
  match f m with
  | .ok a => .ok a m
  | .error e => .error e m

/-- Changes the machine. -/
def change (f : Machine → Machine) : InPlace ε Unit := fun m => .ok () (f m)

/-- What a computation comes to that makes all of its changes, or none if it fails. -/
def allOrNothing (m : Machine) : Except ε (Machine × α) → EStateM.Result ε Machine α
  | .ok (after, a) => .ok a after
  | .error e => .error e m

/-- The machine that a computation leaves, and its answer. -/
def outcome : EStateM.Result ε Machine α → Machine × Except ε α
  | .ok a after => (after, .ok a)
  | .error e after => (after, .error e)

@[simp] theorem run_ask (f : Machine → α) : (ask f : InPlace ε α).run m = .ok (f m) m := rfl

@[simp] theorem run_change (f : Machine → Machine) :
    (change f : InPlace ε Unit).run m = .ok () (f m) := rfl

/-- A look at the machine that can fail leaves it as it is. -/
theorem run_look (f : Machine → Except ε α) :
    (look f).run m = allOrNothing m ((f m).map fun a => (m, a)) := by
  show look f m = _
  unfold look
  cases f m <;> rfl

end InPlace

open InPlace

/-! ## Instructions -/

/-- Loads a register, then takes the sign of what was loaded. -/
def loadInPlace (target : MovedRegister) (operand : Operand) : InPlace Cause Flow := do
  let value ← look fun m => if target.isWide then m.readWord operand else m.readByte operand
  change fun m => { m with registers := m.registers.set target.register value }
  change fun m =>
    m.setFlags (if target.isWide then m.flags.ofWord value else m.flags.ofByte value.toUInt8)
  return .next

/-- Stores a register, the high byte of a wide one first. -/
def storeInPlace (source : MovedRegister) (operand : Operand) : InPlace Cause Flow := do
  let address ← look fun m => m.address operand
  let value ← ask fun m => m.get source.register
  if source.isWide then
    change fun m => m.store address (Word.high value)
    change fun m => m.store (address + 1) (Word.low value)
  else
    change fun m => m.store address value.toUInt8
  return .next

/-- Sets the flags of an operation on an accumulator and an operand, then writes the result back. -/
def binaryInPlace (operation : BinaryOperation) (acc : Accumulator) (operand : Operand) :
    InPlace Cause Flow := do
  let left ← ask fun m => m.get acc.register
  let right ← look fun m => m.readByte operand
  let flags ← ask Machine.flags
  let result := operation.apply left.toUInt8 right.toUInt8 flags
  change fun m => m.setFlags result.flags
  if operation.keepsResult then
    change fun m => m.setAccumulator acc result.value
  return .next

/-- Sets the flags of an operation on an accumulator, then writes the result back. -/
def unaryInPlace (operation : UnaryOperation) (acc : Accumulator) : InPlace Cause Flow := do
  let value ← ask fun m => m.get acc.register
  let flags ← ask Machine.flags
  let result := operation.apply value.toUInt8 flags
  change fun m => m.setFlags result.flags
  change fun m => m.setAccumulator acc result.value
  return .next

/-- Copies a register to another. -/
def transferInPlace (operand : Operand) : InPlace Cause Flow := do
  let registers ← look fun _ => pair operand
  let value ← ask fun m => m.get registers.1
  change fun m => m.set registers.2 value
  if registers.2 = .pc then return .jump (← ask pc) else return .next

/-- Exchanges two registers, the left one written first. -/
def exchangeInPlace (operand : Operand) : InPlace Cause Flow := do
  let registers ← look fun _ => pair operand
  let left ← ask fun m => m.get registers.1
  let right ← ask fun m => m.get registers.2
  change fun m => m.set registers.1 right
  change fun m => m.set registers.2 left
  if registers.1 = .pc ∨ registers.2 = .pc then return .jump (← ask pc) else return .next

/-- Sends control to the target of an operand. -/
def jumpInPlace (operand : Operand) : InPlace Cause Flow := do
  let address ← look fun m => m.target operand
  return .jump address

/-- Notes the return address, then sends control to the target of an operand. -/
def callInPlace (operand : Operand) (next : Word) : InPlace Cause Flow := do
  let address ← look fun m => m.target operand
  change fun m => { m with callStack := next :: m.callStack }
  return .jump address

/-- Takes the latest return address off the call stack. -/
def returnInPlace : InPlace Cause Flow := do
  match ← ask callStack with
  | address :: rest =>
    change fun m => { m with callStack := rest }
    return .jump address
  | [] => return .halt .returned

/-- Executes an instruction in place. `next` is the address to return to. -/
def executeInPlace (instruction : Mnemonic) (operand : Operand) (next : Word) :
    InPlace Cause Flow :=
  match instruction with
  | .load target => loadInPlace target operand
  | .store source => storeInPlace source operand
  | .binary operation acc => binaryInPlace operation acc operand
  | .unary operation acc => unaryInPlace operation acc
  | .nop => return .next
  | .rts => returnInPlace
  | .swi => return .halt .interrupted
  | .stop => return .halt .finished
  | .branch condition => do
    if condition.holds (← ask Machine.flags) then jumpInPlace operand else return .next
  | .bsr | .jsr => callInPlace operand next
  | .jmp => jumpInPlace operand
  | .tfr => transferInPlace operand
  | .exg => exchangeInPlace operand

/-- Loading in place is all or nothing. -/
theorem run_loadInPlace (m : Machine) (target : MovedRegister) (operand : Operand) :
    (loadInPlace target operand).run m =
      allOrNothing m ((m.load target operand).map fun after => (after, .next)) := by
  unfold loadInPlace load
  simp only [EStateM.run_bind, run_look, run_change, EStateM.run_pure]
  by_cases hwide : target.isWide = true
  · simp only [if_pos hwide]
    cases m.readWord operand with
    | error cause => rfl
    | ok value => cases target <;> rfl
  · simp only [if_neg hwide]
    cases m.readByte operand with
    | error cause => rfl
    | ok value => cases target <;> rfl

/-- Storing in place is all or nothing: the address is known before the first byte is stored. -/
theorem run_storeInPlace (m : Machine) (source : MovedRegister) (operand : Operand) :
    (storeInPlace source operand).run m =
      allOrNothing m ((m.storeRegister source operand).map fun after => (after, .next)) := by
  unfold storeInPlace storeRegister
  rw [EStateM.run_bind, run_look]
  cases m.address operand with
  | error cause => rfl
  | ok address => cases source <;> rfl

/-- An operation in place is all or nothing: the operand is read before anything is written. -/
theorem run_binaryInPlace (m : Machine) (operation : BinaryOperation) (acc : Accumulator)
    (operand : Operand) :
    (binaryInPlace operation acc operand).run m =
      allOrNothing m ((m.binary operation acc operand).map fun after => (after, .next)) := by
  unfold binaryInPlace binary
  simp only [EStateM.run_bind, run_ask, run_look]
  cases m.readByte operand with
  | error cause => rfl
  | ok value => cases operation <;> rfl

/-- A transfer in place is all or nothing. -/
theorem run_transferInPlace (m : Machine) (operand : Operand) :
    (transferInPlace operand).run m =
      allOrNothing m ((pair operand).map fun registers => m.transfer registers.1 registers.2) := by
  unfold transferInPlace
  simp only [EStateM.run_bind, run_look]
  cases pair operand with
  | error cause => rfl
  | ok registers =>
    obtain ⟨source, target⟩ := registers
    cases target <;> rfl

/-- An exchange in place is all or nothing. -/
theorem run_exchangeInPlace (m : Machine) (operand : Operand) :
    (exchangeInPlace operand).run m =
      allOrNothing m ((pair operand).map fun registers => m.exchange registers.1 registers.2) := by
  unfold exchangeInPlace
  simp only [EStateM.run_bind, run_look]
  cases pair operand with
  | error cause => rfl
  | ok registers =>
    obtain ⟨left, right⟩ := registers
    cases left <;> cases right <;> rfl

/-- A return in place is all or nothing. -/
theorem run_returnInPlace (m : Machine) (operand : Operand) (next : Word) :
    returnInPlace.run m = allOrNothing m (m.execute .rts operand next) := by
  unfold returnInPlace execute
  simp only [EStateM.run_bind, run_ask]
  cases m.callStack with
  | nil => rfl
  | cons address rest => rfl

/-- A jump in place is all or nothing. -/
theorem run_jumpInPlace (m : Machine) (operand : Operand) :
    (jumpInPlace operand).run m =
      allOrNothing m ((m.target operand).map fun address => (m, .jump address)) := by
  unfold jumpInPlace
  simp only [EStateM.run_bind, run_look]
  cases m.target operand with
  | error cause => rfl
  | ok address => rfl

/-- A call in place is all or nothing: the target is known before the return address is pushed. -/
theorem run_callInPlace (m : Machine) (operand : Operand) (next : Word) :
    (callInPlace operand next).run m =
      allOrNothing m ((m.target operand).map fun address =>
        ({ m with callStack := next :: m.callStack }, .jump address)) := by
  unfold callInPlace
  simp only [EStateM.run_bind, run_look]
  cases m.target operand with
  | error cause => rfl
  | ok address => rfl

/-- An instruction executed in place makes all of its changes, or none if it fails. -/
theorem run_executeInPlace (m : Machine) (instruction : Mnemonic) (operand : Operand)
    (next : Word) :
    (executeInPlace instruction operand next).run m =
      allOrNothing m (m.execute instruction operand next) := by
  cases instruction with
  | load target => exact m.run_loadInPlace target operand
  | store source => exact m.run_storeInPlace source operand
  | binary operation acc => exact m.run_binaryInPlace operation acc operand
  | unary operation acc => rfl
  | nop | swi | stop => rfl
  | rts => exact m.run_returnInPlace operand next
  | branch condition =>
    unfold executeInPlace execute
    simp only [EStateM.run_bind, run_ask]
    by_cases htaken : condition.holds m.flags = true
    · rw [if_pos htaken, if_pos htaken]
      exact m.run_jumpInPlace operand
    · rw [if_neg htaken, if_neg htaken]
      rfl
  | bsr | jsr => exact m.run_callInPlace operand next
  | jmp => exact m.run_jumpInPlace operand
  | tfr => exact m.run_transferInPlace operand
  | exg => exact m.run_exchangeInPlace operand

/-! ## Lines typed by hand -/

/-- Executes a line typed by hand in place. -/
def evaluateInPlace (source : String) : InPlace Diagnostic (Option Halt) := do
  change ready
  let i ← look fun m => readTyped m.program.labels source
  let next ← ask pc
  let flow ← EStateM.adaptExcept Diagnostic.unplaced (executeInPlace i.mnemonic i.operand next)
  match flow with
  | .halt _ => ask Machine.halt
  | flow =>
    change fun m => m.follow next flow
    ask Machine.halt

/-- In place or not, a line typed by hand comes to the same. -/
theorem outcome_evaluateInPlace (m : Machine) (source : String) :
    outcome ((evaluateInPlace source).run m) = m.evaluate source := by
  have hlabels : m.ready.program.labels = m.program.labels := rfl
  unfold evaluateInPlace evaluate
  simp only [EStateM.run_bind, run_change, run_look, hlabels]
  cases readTyped m.program.labels source with
  | error problem => rfl
  | ok i =>
    have hrun := m.ready.run_executeInPlace i.mnemonic i.operand m.ready.pc
    simp only [Except.map, allOrNothing, run_ask, EStateM.run_adaptExcept, hrun]
    have hready : ({ m with writes := [] } : Machine) = m.ready := rfl
    simp only [hready]
    unfold evaluateChecked
    rcases m.ready.execute i.mnemonic i.operand m.ready.pc with cause | ⟨after, flow⟩
    · rfl
    · cases flow <;> rfl

/-- What a line typed by hand does to control, once it is executed. It stops nothing, and lifts a
halt only by moving a register to `PC`. -/
structure Contained (m : Machine) (i : CheckedInstruction) (after : Machine) : Prop where
  program : after.program = m.program
  steps : after.steps = m.steps
  halt : after.halt = if i.writesPc then none else m.halt
  pc : m.transfers i = false → after.pc = m.pc
  ends : m.ends i = true → after = m.ready

/-- A checked instruction that is executed by hand stays within its bounds. -/
theorem contained_of_evaluateChecked {m after : Machine} {i : CheckedInstruction}
    (h : m.ready.evaluateChecked i = .ok after) : m.Contained i after := by
  unfold evaluateChecked at h
  obtain ⟨⟨moved, flow⟩, hexecute, heq⟩ := Except.map_eq_ok.mp h
  have hexecuted : m.ready.Executed i m.pc moved flow := executed hexecute
  have hprogram : moved.program = m.program := hexecuted.program
  have hsteps : moved.steps = m.steps := hexecuted.steps
  -- What is known of the flow decides which of the last two facts has something to say.
  cases flow with
  | halt reason =>
    cases heq
    have hsame := hexecuted.same (hexecuted.ends.mp ⟨reason, rfl⟩)
    have hpc : moved.pc = m.pc := by
      rw [hsame]
      rfl
    exact ⟨hprogram, hsteps, hexecuted.halt, fun _ => hpc, fun _ => hsame⟩
  | next =>
    cases heq
    refine ⟨hprogram, hsteps, hexecuted.halt, fun _ => rfl, fun hends => ?_⟩
    obtain ⟨reason, hflow⟩ := hexecuted.ends.mpr hends
    cases hflow
  | jump target =>
    cases heq
    refine ⟨hprogram, hsteps, hexecuted.halt, fun hstays => ?_, fun hends => ?_⟩
    · have htransfers := hexecuted.transfers.mp ⟨target, rfl⟩
      exact absurd htransfers (Bool.eq_false_iff.mp hstays)
    · obtain ⟨reason, hflow⟩ := hexecuted.ends.mpr hends
      cases hflow

/-- A line typed by hand can be executed in place. If it is refused, everything but the noted stores
is as before. If it is executed, program and count of steps are as before, the machine is not
stopped anew, and the program counter has moved only if the instruction transfers control. -/
theorem contained_of_evaluate (m : Machine) (source : String) :
    outcome ((evaluateInPlace source).run m) = m.evaluate source ∧
    (∀ problem, (m.evaluate source).2 = .error problem → (m.evaluate source).1 = m.ready) ∧
    ∀ halt, (m.evaluate source).2 = .ok halt →
      halt = (m.evaluate source).1.halt ∧
      ∃ i, readTyped m.program.labels source = .ok i ∧ m.Contained i (m.evaluate source).1 := by
  refine ⟨m.outcome_evaluateInPlace source, ?_⟩
  -- The line fails when it is read, or when it is executed, or not at all.
  cases hread : readTyped m.program.labels source with
  | error problem =>
    have hevaluate : m.evaluate source = (m.ready, .error problem) := by
      simp only [evaluate, hread]
      rfl
    rw [hevaluate]
    exact ⟨fun _ _ => rfl, fun halt hhalt => nomatch hhalt⟩
  | ok i =>
    cases hchecked : m.ready.evaluateChecked i with
    | error cause =>
      have hevaluate : m.evaluate source = (m.ready, .error (.unplaced cause)) := by
        have hfresh : ({ m with writes := [] } : Machine).evaluateChecked i = .error cause :=
          hchecked
        simp only [evaluate, hread, hfresh]
        rfl
      rw [hevaluate]
      exact ⟨fun _ _ => rfl, fun halt hhalt => nomatch hhalt⟩
    | ok after =>
      have hevaluate : m.evaluate source = (after, .ok after.halt) := by
        have hfresh : ({ m with writes := [] } : Machine).evaluateChecked i = .ok after := hchecked
        simp only [evaluate, hread, hfresh]
      rw [hevaluate]
      refine ⟨fun problem hproblem => (nomatch hproblem), fun halt hhalt => ?_⟩
      cases hhalt
      exact ⟨rfl, i, rfl, contained_of_evaluateChecked hchecked⟩

/-- On a machine that has stopped: a jump to no label is refused, `SWI` does nothing, and a register
moved to `PC` lifts the halt. -/
theorem contained_of_evaluate_halted :
    let m := { start { labels := .empty, lineCount := 0, lines := [] } with halt := some .finished }
    (m.evaluate "JMP LOOP").1 = m.ready ∧ (m.evaluate "SWI").1 = m.ready ∧
      (m.evaluate "TFR X,PC").1.halt = none ∧ (m.evaluate "TFR X,PC").1.steps = 0 := by
  intro m
  obtain ⟨-, hrefused, -⟩ := contained_of_evaluate m "JMP LOOP"
  obtain ⟨-, -, hswi⟩ := contained_of_evaluate m "SWI"
  obtain ⟨-, -, htransfer⟩ := contained_of_evaluate m "TFR X,PC"
  obtain ⟨problem, hproblem⟩ : ∃ problem, (m.evaluate "JMP LOOP").2 = .error problem := ⟨_, rfl⟩
  obtain ⟨-, i, hi, hnothing⟩ :=
    hswi (some .finished) (Except.toOption_eq_some.mp (by decide +kernel))
  obtain ⟨-, j, hj, hmoved⟩ := htransfer none (Except.toOption_eq_some.mp (by decide +kernel))
  have hends : (readTyped .empty "SWI").toOption.any m.ends = true := by decide +kernel
  have hwrites : (readTyped .empty "TFR X,PC").toOption.any (·.writesPc) = true := by decide +kernel
  rw [show readTyped .empty "SWI" = .ok i from hi] at hends
  rw [show readTyped .empty "TFR X,PC" = .ok j from hj] at hwrites
  exact ⟨hrefused problem hproblem, hnothing.ends hends, hmoved.halt.trans (if_pos hwrites),
    hmoved.steps⟩

end Machine
end Teach6809
