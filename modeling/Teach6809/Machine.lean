import Teach6809.Arithmetic
import Teach6809.Program

/-!
# The machine

A machine holds a program, the registers, a data memory, the stack of return addresses and, once
it has stopped, the reason. Stores go to the data memory; the program is never changed. Labels are
looked up in the program when an instruction is executed.

The bytes of the program lie in a memory of their own, the program store. It is filled when the
machine is made, nothing is ever written to it afterwards, and no step reads it: instructions are
found by their addresses. So it is not a second copy next to the program, which would have to be
kept in agreement with it, but is taken from the program wherever it is looked at (`Program.store`).

`Machine.step` executes one instruction. A stopped machine stays as it is.
-/

namespace Teach6809

/-! ## State -/

/-- Why a machine stopped. -/
inductive Halt where
  /-- At `END`. -/
  | finished
  /-- At `SWI`. -/
  | interrupted
  /-- At `RTS` with no return address. -/
  | returned
  /-- After the last instruction. -/
  | exhausted
  /-- Because an instruction could not be executed. -/
  | faulted
deriving DecidableEq

/-- Where control goes after an instruction. -/
inductive Flow where
  | next
  | jump (target : Word)
  | halt (reason : Halt)
deriving DecidableEq

/-- A machine with its program. -/
structure Machine where
  program : Program
  registers : RegisterFile
  data : Memory
  /-- The return addresses, the latest first. -/
  callStack : List Word
  halt : Option Halt
  /-- What the last instruction stored, in order. -/
  writes : List (Word × Byte)
  /-- How many instructions were executed since the start. -/
  steps : Nat
deriving DecidableEq

namespace Machine

/-- A machine about to execute a program from its first instruction. -/
def start (program : Program) : Machine where
  program := program
  registers := .powerOn
  data := .empty
  callStack := []
  halt := none
  writes := []
  steps := 0

/-- Takes the machine back to power-on, with its program. -/
def reset (m : Machine) : Machine :=
  { m with
    registers := .powerOn
    data := .empty
    callStack := []
    halt := none
    writes := []
    steps := 0 }

/-- The program counter. -/
def pc (m : Machine) : Word := m.registers.pc

/-- The condition flags. -/
def flags (m : Machine) : Flags := m.registers.cc

/-- The value of a register. -/
def get (m : Machine) (r : Register) : Word := m.registers.get r

/-- Writes a register. Writing the program counter lets a stopped machine go on. -/
def set (m : Machine) (r : Register) (value : Word) : Machine :=
  { m with
    registers := m.registers.set r value
    halt := if r = .pc then none else m.halt }

/-- Puts a byte into the data memory from outside. -/
def poke (m : Machine) (address : Word) (value : Byte) : Machine :=
  { m with data := m.data.write address value }

/-- Stores a byte into the data memory and notes it. -/
def store (m : Machine) (address : Word) (value : Byte) : Machine :=
  { m with data := m.data.write address value, writes := m.writes ++ [(address, value)] }

/-- The instruction at the program counter. -/
def current? (m : Machine) : Option PlacedInstruction := m.program.at? m.pc

/-- The line of the instruction at the program counter, or the number of lines if there is none. -/
def line (m : Machine) : Nat :=
  match m.current? with
  | some i => i.line
  | none => m.program.lineCount

/-- The instruction that the next step executes. -/
def starting? (m : Machine) : Option PlacedInstruction :=
  if m.halt.isSome then none else m.current?

/-! ## Operands -/

/-- The address in the data memory that an operand refers to. -/
def address (m : Machine) : Operand → Except Cause Word
  | .direct low => .ok (Word.ofBytes m.registers.dp low)
  | .extended address => .ok address
  | .indexed offset base => .ok (m.get base.register + offset.toInt16.toUInt16)
  | other => .error (.noAddress other)

/-- The byte that an operand stands for, in the low half of a word; an immediate value as it is. -/
def readByte (m : Machine) : Operand → Except Cause Word
  | .immediate value => .ok value
  | operand => (m.address operand).map fun address => (m.data.read address).toUInt16

/-- The word that an operand stands for. -/
def readWord (m : Machine) : Operand → Except Cause Word
  | .immediate value => .ok value
  | operand => (m.address operand).map m.data.readWord

/-- Where a jump, branch or call with an operand goes. -/
def target (m : Machine) : Operand → Except Cause Word
  | .label name =>
    match m.program.labelTarget? name with
    | some address => .ok address
    | none => .error (.unresolvedLabel name)
  | operand => m.address operand

/-- The two registers of an operand. -/
def pair : Operand → Except Cause (Register × Register)
  | .pair source target => .ok (source, target)
  | other => .error (.noPair other)

/-! ## Instructions -/

/-- Puts a result into an accumulator. -/
def setAccumulator (m : Machine) (acc : Accumulator) (value : Byte) : Machine :=
  m.set acc.register value.toUInt16

/-- Replaces the condition flags. -/
def setFlags (m : Machine) (flags : Flags) : Machine :=
  { m with registers := { m.registers with cc := flags } }

/-- Loads a register and takes the sign of what was loaded. -/
def load (m : Machine) (target : MovedRegister) (operand : Operand) : Except Cause Machine :=
  if target.isWide then do
    let value ← m.readWord operand
    let loaded := { m with registers := m.registers.set target.register value }
    return loaded.setFlags (m.flags.ofWord value)
  else do
    let value ← m.readByte operand
    let loaded := { m with registers := m.registers.set target.register value }
    return loaded.setFlags (m.flags.ofByte value.toUInt8)

/-- Stores a register, the high byte of a wide one first. -/
def storeRegister (m : Machine) (source : MovedRegister) (operand : Operand) :
    Except Cause Machine := do
  let address ← m.address operand
  let value := m.get source.register
  if source.isWide then
    return (m.store address (Word.high value)).store (address + 1) (Word.low value)
  else
    return m.store address value.toUInt8

/-- Executes an operation on an accumulator and an operand. -/
def binary (m : Machine) (operation : BinaryOperation) (acc : Accumulator) (operand : Operand) :
    Except Cause Machine := do
  let value ← m.readByte operand
  let result := operation.apply (m.get acc.register).toUInt8 value.toUInt8 m.flags
  let flagged := m.setFlags result.flags
  return if operation.keepsResult then flagged.setAccumulator acc result.value else flagged

/-- Executes an operation on an accumulator. -/
def unary (m : Machine) (operation : UnaryOperation) (acc : Accumulator) : Machine :=
  let result := operation.apply (m.get acc.register).toUInt8 m.flags
  (m.setFlags result.flags).setAccumulator acc result.value

/-- Copies a register to another. -/
def transfer (m : Machine) (source target : Register) : Machine × Flow :=
  let moved := m.set target (m.get source)
  (moved, if target = .pc then .jump moved.pc else .next)

/-- Exchanges two registers, the left one written first. -/
def exchange (m : Machine) (left right : Register) : Machine × Flow :=
  let moved := (m.set left (m.get right)).set right (m.get left)
  (moved, if left = .pc ∨ right = .pc then .jump moved.pc else .next)

/-- Executes an instruction and says where control goes. `next` is the address to return to. -/
def execute (m : Machine) (instruction : Mnemonic) (operand : Operand) (next : Word) :
    Except Cause (Machine × Flow) :=
  match instruction with
  | .load register => (m.load register operand).map fun after => (after, .next)
  | .store register => (m.storeRegister register operand).map fun after => (after, .next)
  | .binary operation acc => (m.binary operation acc operand).map fun after => (after, .next)
  | .unary operation acc => .ok (m.unary operation acc, .next)
  | .nop => .ok (m, .next)
  | .rts =>
    match m.callStack with
    | address :: rest => .ok ({ m with callStack := rest }, .jump address)
    | [] => .ok (m, .halt .returned)
  | .swi => .ok (m, .halt .interrupted)
  | .stop => .ok (m, .halt .finished)
  | .branch condition =>
    if condition.holds m.flags then
      (m.target operand).map fun address => (m, .jump address)
    else .ok (m, .next)
  | .bsr | .jsr =>
    (m.target operand).map fun address =>
      ({ m with callStack := next :: m.callStack }, .jump address)
  | .jmp => (m.target operand).map fun address => (m, .jump address)
  | .tfr => (pair operand).map fun registers => m.transfer registers.1 registers.2
  | .exg => (pair operand).map fun registers => m.exchange registers.1 registers.2

/-! ## Steps -/

/-- What an execution ends with: a diagnostic, or the reason of a halt if there is one. -/
abbrev Outcome := Except Diagnostic (Option Halt)

/-- Moves the program counter. -/
def goto (m : Machine) (address : Word) : Machine :=
  { m with registers := { m.registers with pc := address } }

/-- Sends control where an instruction decided. -/
def follow (m : Machine) (next : Word) : Flow → Machine
  | .next => m.goto next
  | .jump target => m.goto target
  | .halt reason => { m with halt := some reason }

/-- Stops the machine on an error. -/
def fault (m : Machine) : Machine := { m with halt := some .faulted }

/-- Executes one instruction. Past the last instruction a machine is exhausted; anywhere else
without an instruction it faults. An instruction that halts counts as executed and leaves the
program counter where it is. -/
def step (m : Machine) : Machine × Outcome :=
  match m.halt with
  | some reason => (m, .ok (some reason))
  | none =>
    -- From here on the stores of the instruction before are forgotten, whatever happens.
    let fresh := { m with writes := [] }
    match m.current? with
    | none =>
      if m.pc = UInt16.ofNat m.program.stop then
        ({ fresh with halt := some .exhausted }, .ok (some .exhausted))
      else (fresh.fault, .error (.unplaced (.noInstruction m.pc)))
    | some i =>
      match fresh.execute i.mnemonic i.operand i.next with
      | .error cause => (fresh.fault, .error (.placed cause i.line i.span))
      | .ok (after, flow) =>
        let done := ({ after with steps := after.steps + 1 }).follow i.next flow
        (done, .ok done.halt)

end Machine
end Teach6809
