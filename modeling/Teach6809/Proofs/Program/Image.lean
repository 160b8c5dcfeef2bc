import Teach6809.Proofs.Assembly.WellFormed
import Teach6809.Proofs.Memory.Load

/-!
# The image of a program

In a well-formed program every instruction takes its size in bytes, so the bytes of an instruction
are in the image as far from its start as the instruction is from the origin. Loaded into memory
nothing is lost: `WellFormed.read_store` reads every byte of an instruction at its address.
-/

namespace Teach6809
namespace Program
namespace WellFormed

variable {p : Program} {i : PlacedInstruction} {k : Nat}

theorem length_bytes (hp : p.WellFormed) (hi : i ∈ p.lines) : i.bytes.length = i.size :=
  PlacedInstruction.length_bytes (hp.sound i hi) (hp.resolved i hi)

theorem length_field (hp : p.WellFormed) (hi : i ∈ p.lines) :
    i.field.length = i.mnemonic.operandLength i.mode :=
  PlacedInstruction.length_field (hp.sound i hi) (hp.resolved i hi)

/-- The bytes of the first instructions reach from the origin to the next position. -/
theorem length_image_take (hp : p.WellFormed) (k : Nat) :
    origin.toNat + ((p.lines.take k).flatMap PlacedInstruction.bytes).length = p.position k := by
  rw [position, PlacedInstruction.length_flatMap_bytes]
  intro i hi
  exact hp.length_bytes (List.mem_of_mem_take hi)

/-- The image reaches from the origin to the end of the program. -/
theorem length_image (hp : p.WellFormed) : origin.toNat + p.image.length = p.stop := by
  have h := hp.length_image_take p.lines.length
  rw [List.take_length] at h
  rw [hp.laid.stop_eq, ← h]
  rfl

/-- The bytes of an instruction are in the image from its position on. -/
theorem getElem?_image (hp : p.WellFormed) (hk : p.lines[k]? = some i) {j : Nat} {value : Byte}
    (hj : i.bytes[j]? = some value) :
    ∃ n, origin.toNat + n = p.position k + j ∧ p.image[n]? = some value := by
  obtain ⟨hlt, rfl⟩ := List.getElem?_eq_some_iff.mp hk
  have hbefore := hp.length_image_take k
  -- The bytes before the instruction reach exactly to its position.
  have hsplit : p.image = (p.lines.take k).flatMap PlacedInstruction.bytes ++
      (p.lines[k].bytes ++ (p.lines.drop (k + 1)).flatMap PlacedInstruction.bytes) := by
    unfold image
    rw [← List.flatMap_cons, ← List.flatMap_append, List.getElem_cons_drop, List.take_append_drop]
  have hinside : j < p.lines[k].bytes.length := (List.getElem?_eq_some_iff.mp hj).1
  refine ⟨((p.lines.take k).flatMap PlacedInstruction.bytes).length + j, by omega, ?_⟩
  rw [hsplit, List.getElem?_append_right (by omega), Nat.add_sub_cancel_left,
    List.getElem?_append_left hinside]
  exact hj

/-! ## The loaded program -/

/-- No byte of the image falls off the end of memory. -/
theorem image_fits (hp : p.WellFormed) : origin.toNat + p.image.length ≤ Memory.size := by
  rw [hp.length_image, hp.laid.stop_eq]
  exact hp.laid.room

theorem read_store_origin (hp : p.WellFormed) {n : Nat} {value : Byte}
    (hn : p.image[n]? = some value) :
    p.store.read (UInt16.ofNat (origin.toNat + n)) = value := by
  have hlt : n < p.image.length := (List.getElem?_eq_some_iff.mp hn).1
  have hfits := hp.image_fits
  exact Memory.read_load_add _ hn (by omega)

/-- The bytes of an instruction are found at its address. -/
theorem read_store (hp : p.WellFormed) (hi : i ∈ p.lines) {j : Nat} {value : Byte}
    (hj : i.bytes[j]? = some value) :
    p.store.read (i.address + UInt16.ofNat j) = value := by
  obtain ⟨k, hk⟩ := List.getElem?_of_mem hi
  obtain ⟨n, hn, hvalue⟩ := hp.getElem?_image hk hj
  have haddress : i.address + UInt16.ofNat j = UInt16.ofNat (origin.toNat + n) := by
    rw [hn, UInt16.ofNat_add, ← hp.laid.address k i hk, UInt16.ofNat_toNat]
  rw [haddress]
  exact hp.read_store_origin hvalue

/-- The bytes after the opcode of an instruction are found from the end of the opcode on. -/
theorem read_store_field (hp : p.WellFormed) (hi : i ∈ p.lines) {j : Nat} {value : Byte}
    (hj : i.field[j]? = some value) :
    p.store.read (i.address + UInt16.ofNat (i.opcode.length + j)) = value := by
  apply hp.read_store hi
  rw [i.bytes_eq, List.getElem?_append_right (by rw [Opcode.length_bytes]; omega),
    Opcode.length_bytes, Nat.add_sub_cancel_left]
  exact hj

end WellFormed
end Program
end Teach6809
