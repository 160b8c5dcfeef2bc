import Teach6809.Memory

/-!
# Loaded bytes

`read_load` says what a memory holds after bytes were loaded: the loaded bytes from the base on, as
far as the address space reaches, and what was there before everywhere else.
-/

namespace Teach6809
namespace Memory

/-- Loading replaces the bytes from the base on and no others. -/
theorem read_load (m : Memory) (base : Nat) (bytes : List Byte) (address : Word) :
    (m.load base bytes).read address =
      if base ≤ address.toNat then (bytes[address.toNat - base]?).getD (m.read address)
      else m.read address := by
  induction bytes generalizing m base with
  | nil => simp [load]
  | cons value rest ih =>
    have htop : address.toNat < size := address.toNat_lt
    rw [load]
    split
    · rename_i hbase
      rw [ih, read_write]
      have hat : address = UInt16.ofNat base ↔ address.toNat = base := by
        rw [← UInt16.toNat_inj, UInt16.toNat_ofNat_of_lt' hbase]
      rcases Nat.lt_trichotomy address.toNat base with hlt | heq | hgt
      · have hne : ¬ address = UInt16.ofNat base := by rw [hat]; omega
        rw [if_neg (by omega), if_neg hne, if_neg (by omega)]
      · rw [if_neg (by omega), if_pos (hat.mpr heq), if_pos (by omega), heq, Nat.sub_self]
        rfl
      · have hne : ¬ address = UInt16.ofNat base := by rw [hat]; omega
        have hnext : address.toNat - base = address.toNat - (base + 1) + 1 := by omega
        rw [if_pos (by omega), if_neg hne, if_pos (by omega), hnext, List.getElem?_cons_succ]
    · rename_i hbase
      rw [if_neg (by omega)]

/-- The byte at a place of the loaded bytes that the address space reaches. -/
theorem read_load_add (m : Memory) {base k : Nat} {bytes : List Byte} {value : Byte}
    (hk : bytes[k]? = some value) (htop : base + k < size) :
    (m.load base bytes).read (UInt16.ofNat (base + k)) = value := by
  have haddress : (UInt16.ofNat (base + k)).toNat = base + k := UInt16.toNat_ofNat_of_lt' htop
  rw [read_load, haddress, if_pos (by omega), Nat.add_sub_cancel_left, hk]
  rfl

end Memory
end Teach6809
