import Teach6809.Register

/-!
# Mnemonics

Most mnemonics are an operation joined to a register: `LD` and `ST` to one of six registers, the
arithmetic and shift operations to an accumulator, a branch to its condition. The type keeps this
shape, so a rule about all loads or all branches is one line.
-/

namespace Teach6809

/-! ## The parts of a mnemonic -/

/-- The registers that `LD` and `ST` move to and from memory. -/
inductive MovedRegister where
  | a | b | x | y | u | s
deriving DecidableEq

namespace MovedRegister

/-- Every register that can be moved. -/
def all : List MovedRegister := [a, b, x, y, u, s]

/-- The moved register as a register. -/
def register : MovedRegister → Register
  | a => .a
  | b => .b
  | x => .x
  | y => .y
  | u => .u
  | s => .s

/-- Whether the moved register holds sixteen bits. -/
def isWide (r : MovedRegister) : Bool := r.register.isWide

end MovedRegister

/-- Operations on an accumulator and an operand. -/
inductive BinaryOperation where
  | add | sub | cmp | and | or | eor
deriving DecidableEq

namespace BinaryOperation

/-- Every operation on an accumulator and an operand. -/
def all : List BinaryOperation := [add, sub, cmp, and, or, eor]

/-- The mnemonic without its accumulator. -/
def stem : BinaryOperation → String
  | add => "ADD" | sub => "SUB" | cmp => "CMP" | and => "AND" | or => "OR" | eor => "EOR"

end BinaryOperation

/-- Operations on an accumulator alone. -/
inductive UnaryOperation where
  | lsl | lsr | rol | ror | clr | inc | dec | com | neg
deriving DecidableEq

namespace UnaryOperation

/-- Every operation on an accumulator alone. -/
def all : List UnaryOperation := [lsl, lsr, rol, ror, clr, inc, dec, com, neg]

/-- The mnemonic without its accumulator. -/
def stem : UnaryOperation → String
  | lsl => "LSL" | lsr => "LSR" | rol => "ROL" | ror => "ROR" | clr => "CLR"
  | inc => "INC" | dec => "DEC" | com => "COM" | neg => "NEG"

end UnaryOperation

/-- Conditions of a branch. -/
inductive Condition where
  | always | equal | notEqual | carryClear | carrySet | minus | plus | overflowClear | overflowSet
deriving DecidableEq

namespace Condition

/-- Every branch condition. -/
def all : List Condition :=
  [always, equal, notEqual, carryClear, carrySet, minus, plus, overflowClear, overflowSet]

/-- The two letters after the `B` of a branch. -/
def letters : Condition → String
  | always => "RA" | equal => "EQ" | notEqual => "NE" | carryClear => "CC" | carrySet => "CS"
  | minus => "MI" | plus => "PL" | overflowClear => "VC" | overflowSet => "VS"

end Condition

/-! ## Mnemonics -/

/-- The operations a program can name. -/
inductive Mnemonic where
  | load (target : MovedRegister)
  | store (source : MovedRegister)
  | binary (operation : BinaryOperation) (acc : Accumulator)
  | unary (operation : UnaryOperation) (acc : Accumulator)
  | nop
  | rts
  | swi
  | stop
  | branch (condition : Condition)
  | bsr
  | jsr
  | jmp
  | tfr
  | exg
deriving DecidableEq

namespace Mnemonic

/-- Every mnemonic. -/
def all : List Mnemonic :=
  MovedRegister.all.map load ++ MovedRegister.all.map store ++
    BinaryOperation.all.flatMap (fun operation => Accumulator.all.map (binary operation)) ++
    UnaryOperation.all.flatMap (fun operation => Accumulator.all.map (unary operation)) ++
    [nop, rts, swi, stop] ++ Condition.all.map branch ++ [bsr, jsr, jmp, tfr, exg]

/-- How a mnemonic is written. -/
def name : Mnemonic → String
  | load target => "LD" ++ target.register.name
  | store source => "ST" ++ source.register.name
  | binary operation acc => operation.stem ++ acc.name
  | unary operation acc => operation.stem ++ acc.name
  | nop => "NOP"
  | rts => "RTS"
  | swi => "SWI"
  | stop => "END"
  | branch condition => "B" ++ condition.letters
  | bsr => "BSR"
  | jsr => "JSR"
  | jmp => "JMP"
  | tfr => "TFR"
  | exg => "EXG"

/-- The mnemonic of a name, in upper case. -/
def ofName? (text : String) : Option Mnemonic := all.find? fun m => m.name == text

/-- How many bytes an immediate operand takes: two for the loads of a 16-bit register. -/
def immediateWidth : Mnemonic → Nat
  | load target => if target.isWide then 2 else 1
  | _ => 1

/-- Whether a label operand is a one-byte displacement, not a two-byte address. -/
def isShortBranch : Mnemonic → Bool
  | branch _ | bsr => true
  | _ => false

/-- Whether the operand is a pair of registers. -/
def takesPair : Mnemonic → Bool
  | tfr | exg => true
  | _ => false

theorem mem_all (m : Mnemonic) : m ∈ all := by
  cases m with
  | load r => cases r <;> decide
  | store r => cases r <;> decide
  | binary f acc => cases f <;> cases acc <;> decide
  | unary f acc => cases f <;> cases acc <;> decide
  | branch c => cases c <;> decide
  | _ => decide

/-- Different mnemonics have different names. -/
theorem ofName?_name (m : Mnemonic) : ofName? m.name = some m := by
  have eachOf : ∀ m ∈ all, ofName? m.name = some m := by decide +kernel
  exact eachOf m (mem_all m)

theorem name_of_ofName? {text : String} {m : Mnemonic} (h : ofName? text = some m) :
    m.name = text := by
  unfold ofName? at h
  exact eq_of_beq (List.find?_some (p := fun m : Mnemonic => m.name == text) h)

end Mnemonic
end Teach6809
