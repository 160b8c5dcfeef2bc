import Teach6809.RegisterFile

/-!
# Registers that share storage

`D` is the pair of `A` and `B`, so writing one of them changes what another reads; all other
registers stand alone (`Register.overlaps`). A register that was written reads as the value cut to
its width (`Register.narrow`), of which `CC` keeps the five bits that are modelled. Registers that
share no storage with it read as before.
-/

namespace Teach6809

/-! ## Words and their bytes -/

/-- A word is its high byte times 256 and its low byte. -/
theorem Word.toNat_ofBytes (high low : Byte) :
    (Word.ofBytes high low).toNat = 256 * high.toNat + low.toNat := by
  have hhigh : high.toNat < 256 := high.toNat_lt
  have hlow : low.toNat < 2 ^ 8 := low.toNat_lt
  have height : (8 : Word).toNat % 16 = 8 := rfl
  unfold Word.ofBytes
  simp only [UInt16.toNat_or, UInt16.toNat_shiftLeft, UInt8.toNat_toUInt16, height]
  rw [Nat.mod_eq_of_lt (by rw [Nat.shiftLeft_eq]; omega), ← Nat.shiftLeft_add_eq_or_of_lt hlow,
    Nat.shiftLeft_eq]
  omega

theorem Word.toNat_high (w : Word) : (Word.high w).toNat = w.toNat / 256 := by
  have hw : w.toNat < 65536 := w.toNat_lt
  have height : (8 : Word).toNat % 16 = 8 := rfl
  unfold Word.high
  rw [UInt16.toNat_toUInt8, UInt16.toNat_shiftRight, height, Nat.shiftRight_eq_div_pow]
  omega

theorem Word.toNat_low (w : Word) : (Word.low w).toNat = w.toNat % 256 := UInt16.toNat_toUInt8 w

theorem Word.ofBytes_high_low (w : Word) : Word.ofBytes (Word.high w) (Word.low w) = w := by
  rw [← UInt16.toNat_inj, Word.toNat_ofBytes, Word.toNat_high, Word.toNat_low]
  omega

/-- A word below 256 is its low byte. -/
theorem Word.toUInt16_low {w : Word} (h : w.toNat ≤ 0xFF) : (Word.low w).toUInt16 = w := by
  rw [← UInt16.toNat_inj, UInt8.toNat_toUInt16, Word.toNat_low]
  omega

/-- Cutting a word to its low byte is masking it. -/
theorem Word.toUInt16_toUInt8 (w : Word) : w.toUInt8.toUInt16 = w &&& 0xFF := by
  rw [← UInt16.toNat_inj, UInt8.toNat_toUInt16, UInt16.toNat_toUInt8, UInt16.toNat_and]
  exact (Nat.and_two_pow_sub_one_eq_mod w.toNat 8).symm

/-- The bits of the condition code register that are modelled survive packing, the others do not. -/
theorem Flags.pack_unpack (cc : Byte) : (unpack cc).pack = cc &&& 0x2F := by
  have hall : ∀ bits : BitVec 8, (unpack ⟨bits⟩).pack = ⟨bits⟩ &&& 0x2F := by decide +kernel
  exact hall cc.toBitVec

/-! ## Storage -/

namespace Register

/-- The registers that a register is stored in: `D` in the accumulators, any other in itself. -/
def parts : Register → List Register
  | .d => [.a, .b]
  | r => [r]

/-- Whether two registers share storage. -/
def overlaps (r other : Register) : Bool := r.parts.any fun part => other.parts.contains part

/-- What a register holds of a value: all of it, its low byte, or the five flags. -/
def narrow (r : Register) (value : Word) : Word :=
  if r = .cc then value &&& 0x2F
  else if r.isWide then value
  else value &&& 0xFF

end Register

namespace RegisterFile

/-- A register that was written holds what it can of the value. -/
theorem get_set_self (f : RegisterFile) (r : Register) (value : Word) :
    (f.set r value).get r = r.narrow value := by
  cases r with
  | d => exact Word.ofBytes_high_low value
  | a | b | dp => exact Word.toUInt16_toUInt8 value
  | cc =>
    show (Flags.unpack value.toUInt8).pack.toUInt16 = value &&& 0x2F
    rw [Flags.pack_unpack, UInt8.toUInt16_and, Word.toUInt16_toUInt8, UInt16.and_assoc]
    rfl
  | x | y | u | s | pc => rfl

/-- Writing a register leaves those that share no storage with it. -/
theorem get_set_of_disjoint (f : RegisterFile) {r other : Register}
    (h : other.overlaps r = false) (value : Word) : (f.set r value).get other = f.get other := by
  -- Two registers either share storage, against `h`, or are kept in different fields.
  cases r <;> cases other <;> cases h <;> rfl

theorem toNat_get_d (f : RegisterFile) :
    (f.get .d).toNat = 256 * (f.get .a).toNat + (f.get .b).toNat := by
  show (Word.ofBytes f.a f.b).toNat = 256 * f.a.toUInt16.toNat + f.b.toUInt16.toNat
  rw [Word.toNat_ofBytes, UInt8.toNat_toUInt16, UInt8.toNat_toUInt16]

/-- The condition code register reads as the flags, and as nothing else. -/
theorem get_cc_and (f : RegisterFile) : f.get .cc &&& 0x2F = f.get .cc := by
  have hmasked : f.cc.pack &&& 0x2F = f.cc.pack := by
    rw [← Flags.pack_unpack, Flags.unpack_pack]
  show f.cc.pack.toUInt16 &&& (0x2F : Byte).toUInt16 = f.cc.pack.toUInt16
  rw [← UInt8.toUInt16_and, hmasked]

end RegisterFile
end Teach6809
