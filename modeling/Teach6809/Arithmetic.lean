import Teach6809.Flags
import Teach6809.Mnemonic

/-!
# Arithmetic on bytes

What the operations of an accumulator compute, and what they do to the flags. Every operation sets
negative and zero from its result; flags that an operation does not mention keep their value.
-/

namespace Teach6809

/-- A result together with the flags after it. -/
structure ByteResult where
  value : Byte
  flags : Flags
deriving DecidableEq

namespace ByteResult

/-- A result whose negative and zero flags are taken from its value. -/
def withSign (value : Byte) (flags : Flags) : ByteResult := ⟨value, flags.ofByte value⟩

end ByteResult

namespace Byte

/-- Whether the sign bit of a byte is set. -/
def isNegative (b : Byte) : Bool := b &&& 0x80 != 0

/-! ## Two operands -/

/-- The sum. Overflow means that both operands differ in sign from the result. -/
def add (a b : Byte) (f : Flags) : ByteResult :=
  let result := a + b
  .withSign result
    { f with
      halfCarry := 0x0F < (a &&& 0x0F) + (b &&& 0x0F)
      carry := 0xFF < a.toNat + b.toNat
      overflow := isNegative ((a ^^^ result) &&& (b ^^^ result)) }

/-- The difference; carry is the borrow. Overflow means that the operands differ in sign and the
result differs in sign from the first. -/
def sub (a b : Byte) (f : Flags) : ByteResult :=
  let result := a - b
  .withSign result
    { f with
      carry := a < b
      overflow := isNegative ((a ^^^ b) &&& (a ^^^ result)) }

/-- The result of a bitwise operation, which never overflows. -/
def logic (result : Byte) (f : Flags) : ByteResult := .withSign result { f with overflow := false }

/-! ## One operand -/

/-- One more; it overflows from `$7F` to `$80` only. -/
def inc (a : Byte) (f : Flags) : ByteResult := .withSign (a + 1) { f with overflow := a == 0x7F }

/-- One less; it overflows from `$80` to `$7F` only. -/
def dec (a : Byte) (f : Flags) : ByteResult := .withSign (a - 1) { f with overflow := a == 0x80 }

/-- A shift to the left; the bit shifted off is the carry. -/
def lsl (a : Byte) (f : Flags) : ByteResult := .withSign (a <<< 1) { f with carry := isNegative a }

/-- A shift to the right; the bit shifted off is the carry. -/
def lsr (a : Byte) (f : Flags) : ByteResult :=
  .withSign (a >>> 1) { f with carry := a &&& 0x01 != 0 }

/-- A rotation to the left through the carry. -/
def rol (a : Byte) (f : Flags) : ByteResult :=
  .withSign (a <<< 1 ||| (if f.carry then 0x01 else 0x00)) { f with carry := isNegative a }

/-- A rotation to the right through the carry. -/
def ror (a : Byte) (f : Flags) : ByteResult :=
  .withSign (a >>> 1 ||| (if f.carry then 0x80 else 0x00)) { f with carry := a &&& 0x01 != 0 }

/-- Zero. -/
def clr (f : Flags) : ByteResult := .withSign 0 { f with overflow := false, carry := false }

/-- All bits inverted; the carry is always set. -/
def com (a : Byte) (f : Flags) : ByteResult :=
  .withSign (~~~a) { f with overflow := false, carry := true }

/-- The negated byte. The carry tells a result other than zero; only `$80` overflows. -/
def neg (a : Byte) (f : Flags) : ByteResult :=
  .withSign (-a) { f with carry := -a != 0, overflow := a == 0x80 }

end Byte

/-! ## By mnemonic -/

/-- What an operation on an accumulator and an operand computes. -/
def BinaryOperation.apply : BinaryOperation → Byte → Byte → Flags → ByteResult
  | .add, a, b, f => Byte.add a b f
  | .sub, a, b, f => Byte.sub a b f
  | .cmp, a, b, f => Byte.sub a b f
  | .and, a, b, f => Byte.logic (a &&& b) f
  | .or, a, b, f => Byte.logic (a ||| b) f
  | .eor, a, b, f => Byte.logic (a ^^^ b) f

/-- Whether the result goes into the accumulator; a comparison only sets the flags. -/
def BinaryOperation.keepsResult : BinaryOperation → Bool
  | .cmp => false
  | _ => true

/-- What an operation on an accumulator computes. -/
def UnaryOperation.apply : UnaryOperation → Byte → Flags → ByteResult
  | .lsl, a, f => Byte.lsl a f
  | .lsr, a, f => Byte.lsr a f
  | .rol, a, f => Byte.rol a f
  | .ror, a, f => Byte.ror a f
  | .clr, _, f => Byte.clr f
  | .inc, a, f => Byte.inc a f
  | .dec, a, f => Byte.dec a f
  | .com, a, f => Byte.com a f
  | .neg, a, f => Byte.neg a f

/-- Whether the flags satisfy a branch condition. -/
def Condition.holds (f : Flags) : Condition → Bool
  | .always => true
  | .equal => f.zero
  | .notEqual => !f.zero
  | .minus => f.negative
  | .plus => !f.negative
  | .carryClear => !f.carry
  | .carrySet => f.carry
  | .overflowClear => !f.overflow
  | .overflowSet => f.overflow

end Teach6809
