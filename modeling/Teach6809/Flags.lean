import Teach6809.Register

/-!
# Condition flags

Five of the eight bits of the condition code register are modelled: half-carry, negative, zero,
overflow and carry. The other three read as zero.
-/

namespace Teach6809

/-- The condition flags. -/
structure Flags where
  /-- The carry out of the low nibble of the last addition. -/
  halfCarry : Bool
  /-- The sign bit of the last result. -/
  negative : Bool
  /-- Whether the last result was zero. -/
  zero : Bool
  /-- Whether the last signed result did not fit. -/
  overflow : Bool
  /-- The carry of an addition, the borrow of a subtraction, the bit shifted off. -/
  carry : Bool
deriving DecidableEq

namespace Flags

/-- At power-on only the zero flag is set. -/
def powerOn : Flags := ⟨false, false, true, false, false⟩

/-- The weight of a bit that may be set. -/
def weight (isSet : Bool) (bit : Byte) : Byte := if isSet then bit else 0

/-- The condition code register, laid out `E F H I N Z V C`. -/
def pack (f : Flags) : Byte :=
  weight f.halfCarry 0x20 ||| weight f.negative 0x08 ||| weight f.zero 0x04 |||
    weight f.overflow 0x02 ||| weight f.carry 0x01

/-- The flags in a condition code register. -/
def unpack (cc : Byte) : Flags where
  halfCarry := cc &&& 0x20 != 0
  negative := cc &&& 0x08 != 0
  zero := cc &&& 0x04 != 0
  overflow := cc &&& 0x02 != 0
  carry := cc &&& 0x01 != 0

/-- The flags with negative and zero taken from an 8-bit result. -/
def ofByte (f : Flags) (result : Byte) : Flags :=
  { f with zero := result == 0, negative := result &&& 0x80 != 0 }

/-- The flags with negative and zero taken from a 16-bit result. -/
def ofWord (f : Flags) (result : Word) : Flags :=
  { f with zero := result == 0, negative := result &&& 0x8000 != 0 }

/-- The flags with their letters, in the order of their bits. -/
def named (f : Flags) : List (String × Bool) :=
  [("H", f.halfCarry), ("N", f.negative), ("Z", f.zero), ("V", f.overflow), ("C", f.carry)]

@[simp] theorem unpack_pack (f : Flags) : unpack f.pack = f := by
  obtain ⟨h, n, z, v, c⟩ := f
  cases h <;> cases n <;> cases z <;> cases v <;> cases c <;> decide

end Flags
end Teach6809
