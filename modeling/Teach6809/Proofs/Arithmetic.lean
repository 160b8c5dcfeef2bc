import Teach6809.Arithmetic
import Teach6809.Proofs.Instruction.Encoding

/-!
# Arithmetic on bytes as arithmetic on numbers

A byte stands for a number from 0 to 255 and for a signed one from -128 to 127. The value and the
flags of a sum, a difference or a negated byte are those of the exact results in both readings
(`ByteResult.Stands`): the value is the exact result modulo 256, and overflow tells that the signed
one does not fit. What remains is what each operation adds: the carry and the half-carry.

The flags that an operation does not mention stay as they were; `BinaryOperation.changedFlags` and
`UnaryOperation.changedFlags` list those it does mention.
-/

namespace Teach6809

/-! ## Exact results -/

/-- A result is what a byte keeps of an exact result, given as the numbers and as the signed numbers
that the operands stand for. -/
structure ByteResult.Stands (result : ByteResult) (exact signed : Int) : Prop where
  value : (result.value.toNat : Int) = exact % 256
  overflow : result.flags.overflow = true ↔ signed < -128 ∨ 127 < signed
  negative : result.flags.negative = true ↔ result.value.signed < 0
  zero : result.flags.zero = true ↔ result.value.toNat = 0

/-- A result is the sum of two bytes. -/
structure ByteResult.Adds (a b : Byte) (result : ByteResult) : Prop
    extends result.Stands (a.toNat + b.toNat) (a.signed + b.signed) where
  carry : result.flags.carry = true ↔ 256 ≤ a.toNat + b.toNat
  halfCarry : result.flags.halfCarry = true ↔ 16 ≤ a.toNat % 16 + b.toNat % 16

/-- A result is the difference of two bytes. -/
structure ByteResult.Subtracts (a b : Byte) (before : Flags) (result : ByteResult) : Prop
    extends result.Stands (a.toNat - b.toNat) (a.signed - b.signed) where
  carry : result.flags.carry = true ↔ a.toNat < b.toNat
  halfCarry : result.flags.halfCarry = before.halfCarry

/-- A result is a byte counted up or down. -/
structure ByteResult.Counts (a : Byte) (change : Int) (before : Flags) (result : ByteResult) :
    Prop extends result.Stands (a.toNat + change) (a.signed + change) where
  carry : result.flags.carry = before.carry
  halfCarry : result.flags.halfCarry = before.halfCarry

namespace Byte

variable (a b : Byte) (f : Flags)

/-! ## Signs -/

theorem isNegative_eq : isNegative b = b.toBitVec.msb := by
  have hall : ∀ bits : BitVec 8, isNegative ⟨bits⟩ = bits.msb := by decide +kernel
  exact hall b.toBitVec

theorem isNegative_iff : isNegative b = true ↔ b.signed < 0 := by
  rw [isNegative_eq, BitVec.msb_eq_toInt, decide_eq_true_iff]
  rfl

/-- The exclusive or of two bytes is negative if one of them is and the other is not. -/
theorem isNegative_xor : isNegative (a ^^^ b) = (isNegative a ^^ isNegative b) := by
  simp only [isNegative_eq, UInt8.toBitVec_xor, BitVec.msb_xor]

theorem isNegative_and : isNegative (a &&& b) = (isNegative a && isNegative b) := by
  simp only [isNegative_eq, UInt8.toBitVec_and, BitVec.msb_and]

/-- Different bytes stand for different signed numbers. -/
theorem signed_inj {a b : Byte} : a.signed = b.signed ↔ a = b := by
  show a.toInt8.toInt = b.toInt8.toInt ↔ a = b
  rw [Int8.toInt_inj]
  exact ⟨fun h => congrArg Int8.toUInt8 h, fun h => congrArg UInt8.toInt8 h⟩

/-! ## Results with their sign -/

/-- A result that takes its sign from its value stands for what its value and overflow say. -/
theorem stands_withSign {value : Byte} {flags : Flags} {exact signed : Int}
    (hvalue : (value.toNat : Int) = exact % 256)
    (hoverflow : flags.overflow = true ↔ signed < -128 ∨ 127 < signed) :
    (ByteResult.withSign value flags).Stands exact signed where
  value := hvalue
  overflow := hoverflow
  negative := isNegative_iff value
  zero := beq_iff_eq.trans UInt8.toNat_inj.symm

/-! ## Sums -/

/-- Both operands differ in sign from the result exactly if the signed sum does not fit. -/
theorem overflow_add_iff :
    isNegative ((a ^^^ (a + b)) &&& (b ^^^ (a + b))) = true ↔
      a.signed + b.signed < -128 ∨ 127 < a.signed + b.signed := by
  have hoverflow : isNegative ((a ^^^ (a + b)) &&& (b ^^^ (a + b))) =
      a.toBitVec.saddOverflow b.toBitVec := by
    rw [isNegative_and, isNegative_xor, isNegative_xor, BitVec.saddOverflow_eq]
    simp only [isNegative_eq, UInt8.toBitVec_add]
    cases a.toBitVec.msb <;> cases b.toBitVec.msb <;> cases (a.toBitVec + b.toBitVec).msb <;> rfl
  have hsigned : a.toBitVec.toInt = a.signed ∧ b.toBitVec.toInt = b.signed := ⟨rfl, rfl⟩
  rw [hoverflow, BitVec.saddOverflow, hsigned.1, hsigned.2, Bool.or_eq_true, decide_eq_true_iff,
    decide_eq_true_iff]
  omega

/-- The low nibble of a byte is its number modulo 16. -/
theorem toNat_and_nibble : (a &&& 0x0F).toNat = a.toNat % 16 := by
  rw [UInt8.toNat_and]
  exact Nat.and_two_pow_sub_one_eq_mod a.toNat 4

theorem add_adds : (add a b f).Adds a b where
  toStands := by
    refine stands_withSign ?_ (overflow_add_iff a b)
    rw [UInt8.toNat_add]
    omega
  carry := decide_eq_true_iff
  halfCarry := by
    have ha := toNat_and_nibble a
    have hb := toNat_and_nibble b
    refine decide_eq_true_iff.trans ?_
    rw [UInt8.lt_iff_toNat_lt, UInt8.toNat_add, ha, hb]
    show 15 < (a.toNat % 16 + b.toNat % 16) % 256 ↔ _
    omega

/-! ## Differences -/

/-- The operands differ in sign and the result from the first exactly if the signed difference does
not fit. -/
theorem overflow_sub_iff :
    isNegative ((a ^^^ b) &&& (a ^^^ (a - b))) = true ↔
      a.signed - b.signed < -128 ∨ 127 < a.signed - b.signed := by
  have hoverflow : isNegative ((a ^^^ b) &&& (a ^^^ (a - b))) =
      a.toBitVec.ssubOverflow b.toBitVec := by
    rw [isNegative_and, isNegative_xor, isNegative_xor, BitVec.ssubOverflow_eq]
    simp only [isNegative_eq, UInt8.toBitVec_sub]
    cases a.toBitVec.msb <;> cases b.toBitVec.msb <;> cases (a.toBitVec - b.toBitVec).msb <;> rfl
  have hsigned : a.toBitVec.toInt = a.signed ∧ b.toBitVec.toInt = b.signed := ⟨rfl, rfl⟩
  rw [hoverflow, BitVec.ssubOverflow, hsigned.1, hsigned.2, Bool.or_eq_true, decide_eq_true_iff,
    decide_eq_true_iff]
  omega

theorem sub_subtracts : (sub a b f).Subtracts a b f where
  toStands := by
    have hb := b.toNat_lt
    refine stands_withSign ?_ (overflow_sub_iff a b)
    rw [UInt8.toNat_sub]
    omega
  carry := decide_eq_true_iff.trans UInt8.lt_iff_toNat_lt
  halfCarry := rfl

/-- Negating a byte is subtracting it from zero, with all flags. -/
theorem neg_eq_sub : neg a f = sub 0 a f := by
  have hcarry : ∀ bits : BitVec 8, (-(⟨bits⟩ : Byte) != 0) = decide ((0 : Byte) < ⟨bits⟩) := by
    decide +kernel
  have hoverflow : ∀ bits : BitVec 8, ((⟨bits⟩ : Byte) == 0x80) =
      isNegative ((0 ^^^ ⟨bits⟩) &&& (0 ^^^ (0 - ⟨bits⟩))) := by decide +kernel
  have hvalue : -a = 0 - a := (UInt8.zero_sub a).symm
  unfold neg sub
  dsimp only
  rw [show (-a != 0) = decide (0 < a) from hcarry a.toBitVec,
    show (a == 0x80) = isNegative ((0 ^^^ a) &&& (0 ^^^ (0 - a))) from hoverflow a.toBitVec, hvalue]

/-! ## Counting -/

theorem inc_counts : (inc a f).Counts a 1 f where
  toStands := by
    have hbounds := a.signed_bounds
    refine stands_withSign ?_ ?_
    · rw [UInt8.toNat_add]
      show ((a.toNat + 1) % 2 ^ 8 : Nat) = ((a.toNat : Int) + 1) % 256
      omega
    · rw [beq_iff_eq, ← signed_inj, show signed 0x7F = 127 from rfl]
      omega
  carry := rfl
  halfCarry := rfl

theorem dec_counts : (dec a f).Counts a (-1) f where
  toStands := by
    have hbounds := a.signed_bounds
    refine stands_withSign ?_ ?_
    · rw [UInt8.toNat_sub]
      show ((2 ^ 8 - 1 + a.toNat) % 2 ^ 8 : Nat) = ((a.toNat : Int) + -1) % 256
      omega
    · rw [beq_iff_eq, ← signed_inj, show signed 0x80 = -128 from rfl]
      omega
  carry := rfl
  halfCarry := rfl

end Byte

/-! ## Flags that stay -/

/-- A flag by name. -/
inductive Flag where
  | halfCarry | negative | zero | overflow | carry
deriving DecidableEq

/-- Whether a flag is set. -/
def Flags.get (f : Flags) : Flag → Bool
  | .halfCarry => f.halfCarry
  | .negative => f.negative
  | .zero => f.zero
  | .overflow => f.overflow
  | .carry => f.carry

namespace BinaryOperation

/-- The flags that an operation on an accumulator and an operand sets or clears. -/
def changedFlags : BinaryOperation → List Flag
  | add => [.halfCarry, .negative, .zero, .overflow, .carry]
  | sub | cmp => [.negative, .zero, .overflow, .carry]
  | and | or | eor => [.negative, .zero, .overflow]

theorem get_flags_apply (operation : BinaryOperation) (a b : Byte) (f : Flags) {flag : Flag}
    (h : flag ∉ operation.changedFlags) :
    (operation.apply a b f).flags.get flag = f.get flag := by
  have hkept : operation.changedFlags.contains flag = false := by simpa using h
  cases operation <;> cases flag <;> cases hkept <;> rfl

end BinaryOperation

namespace UnaryOperation

/-- The flags that an operation on an accumulator sets or clears. -/
def changedFlags : UnaryOperation → List Flag
  | lsl | lsr | rol | ror => [.negative, .zero, .carry]
  | inc | dec => [.negative, .zero, .overflow]
  | clr | com | neg => [.negative, .zero, .overflow, .carry]

theorem get_flags_apply (operation : UnaryOperation) (a : Byte) (f : Flags) {flag : Flag}
    (h : flag ∉ operation.changedFlags) :
    (operation.apply a f).flags.get flag = f.get flag := by
  have hkept : operation.changedFlags.contains flag = false := by simpa using h
  cases operation <;> cases flag <;> cases hkept <;> rfl

end UnaryOperation

theorem Flags.get_ofByte (f : Flags) (result : Byte) {flag : Flag}
    (h : flag ∉ [.negative, .zero]) : (f.ofByte result).get flag = f.get flag := by
  cases flag <;> simp at h <;> rfl

theorem Flags.get_ofWord (f : Flags) (result : Word) {flag : Flag}
    (h : flag ∉ [.negative, .zero]) : (f.ofWord result).get flag = f.get flag := by
  cases flag <;> simp at h <;> rfl

end Teach6809
