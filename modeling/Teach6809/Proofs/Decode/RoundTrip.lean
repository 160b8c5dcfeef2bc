import Teach6809.Decode
import Teach6809.Proofs.Program.Image

/-!
# Reading assembled programs back

The opcode map is searched for an opcode once, over all of its entries: the search finds the
canonical reading of every entry (`Opcode.canonical?_of_opcode?`), and no code of the first page is
the page byte, so an opcode is read back from its own bytes whatever follows. Main statement: in the
memory an assembled program is loaded into, every instruction is read back at its address with its
own length, and a sweep from the origin goes through the instructions one by one to the end.
-/

namespace Teach6809

/-! ## Canonical readings -/

/-- What the encoding of a mnemonic in a mode is read back as: `END` has the encoding of `SWI`, and
a jump to a label that of the jump to its address. -/
def Mnemonic.canonical (m : Mnemonic) (mode : AddressingMode) : Mnemonic × AddressingMode :=
  match m, mode with
  | .stop, mode => (.swi, mode)
  | .jmp, .relative => (.jmp, .extended)
  | .jsr, .relative => (.jsr, .extended)
  | m, mode => (m, mode)

theorem AddressingMode.mem_all (mode : AddressingMode) : mode ∈ all := by cases mode <;> decide

/-- The canonical reading takes as many operand bytes. -/
theorem Mnemonic.operandLength_canonical (m : Mnemonic) (mode : AddressingMode) :
    (m.canonical mode).1.operandLength (m.canonical mode).2 = m.operandLength mode := by
  unfold canonical
  split
  · rename_i mode
    cases mode <;> rfl
  · rfl
  · rfl
  · rfl

/-- An indexed instruction is read back as an indexed instruction, and no other is. -/
theorem Mnemonic.canonical_indexed (m : Mnemonic) (mode : AddressingMode) :
    (m.canonical mode).2 = .indexed ↔ mode = .indexed := by
  unfold canonical
  split <;> simp

namespace Opcode

/-- Every entry of the opcode map is found again by its opcode, as its canonical reading. -/
theorem canonical?_of_opcode? {m : Mnemonic} {mode : AddressingMode} {o : Opcode}
    (h : m.opcode? mode = some o) : o.canonical? = some (m.canonical mode) := by
  have hmap : ∀ m ∈ Mnemonic.all, ∀ mode ∈ AddressingMode.all,
      (m.opcode? mode).all (fun o => o.canonical? == some (m.canonical mode)) = true := by
    decide +kernel
  have hentry := hmap m m.mem_all mode mode.mem_all
  rw [h] at hentry
  simpa using hentry

/-- The page byte is no opcode of the first page. -/
theorem code_ne_pageByte {m : Mnemonic} {mode : AddressingMode} {o : Opcode}
    (h : m.opcode? mode = some o) (hpage : o.paged = false) : o.code ≠ pageByte := by
  have hmap : ∀ m ∈ Mnemonic.all, ∀ mode ∈ AddressingMode.all,
      (m.opcode? mode).all (fun o => o.paged || o.code != pageByte) = true := by
    decide +kernel
  have hentry := hmap m m.mem_all mode mode.mem_all
  rw [h] at hentry
  simpa [hpage] using hentry

end Opcode

namespace Memory

/-! ## Decoding -/

/-- An opcode of the map is read back from its bytes. -/
theorem opcodeAt_eq {memory : Memory} {address : Word} {m : Mnemonic} {mode : AddressingMode}
    {o : Opcode} (ho : m.opcode? mode = some o)
    (hbytes : ∀ j value, o.bytes[j]? = some value →
      memory.read (address + UInt16.ofNat j) = value) :
    memory.opcodeAt address = o := by
  obtain ⟨paged, code⟩ := o
  have hzero : address + UInt16.ofNat 0 = address := UInt16.add_zero _
  unfold opcodeAt
  -- No opcode of the first page looks like the page byte, so the two pages are told apart.
  rcases paged with _ | _
  · have hcode : memory.read address = code := by
      rw [← hzero]
      exact hbytes 0 code rfl
    rw [hcode, if_neg (Opcode.code_ne_pageByte ho rfl)]
  · have hpage : memory.read address = Opcode.pageByte := by
      rw [← hzero]
      exact hbytes 0 Opcode.pageByte rfl
    have hcode : memory.read (address + 1) = code := hbytes 1 code rfl
    rw [if_pos hpage, hcode]

/-- What is read back is the canonical reading of the opcode; an indexed one is not read back
without the post-byte of an index register behind the opcode. -/
theorem decode?_of_canonical? {memory : Memory} {address : Word} {m : Mnemonic}
    {mode : AddressingMode} (h : (memory.opcodeAt address).canonical? = some (m, mode)) :
    memory.decode? address =
      if mode = .indexed ∧ IndexRegister.ofPostByte?
          (memory.read (address + UInt16.ofNat (memory.opcodeAt address).length)) = none then none
      else some ⟨m, mode, (memory.opcodeAt address).length + m.operandLength mode⟩ := by
  unfold decode?
  simp only [h]
  by_cases hmode : mode = .indexed
  · subst hmode
    rcases IndexRegister.ofPostByte?
      (memory.read (address + UInt16.ofNat (memory.opcodeAt address).length)) with _ | base
    · rw [if_pos ⟨rfl, rfl⟩]
      rfl
    · rw [if_neg (by simp)]
      rfl
  · rw [if_neg (fun hboth => hmode hboth.1)]
    show (if mode = .indexed then _ else _) = _
    rw [if_neg hmode]
    rfl

/-- The bytes of an opcode of the map, and of an index register behind it in the indexed mode, are
read back as the canonical reading. -/
theorem decode?_eq {memory : Memory} {address : Word} {m : Mnemonic} {mode : AddressingMode}
    {o : Opcode} (ho : m.opcode? mode = some o)
    (hbytes : ∀ j value, o.bytes[j]? = some value →
      memory.read (address + UInt16.ofNat j) = value)
    (hindex : mode = .indexed → ∃ base : IndexRegister,
      memory.read (address + UInt16.ofNat o.length) = base.postByte) :
    memory.decode? address = some
      { mnemonic := (m.canonical mode).1
        mode := (m.canonical mode).2
        length := o.length + m.operandLength mode } := by
  have hopcode := opcodeAt_eq ho hbytes
  have hcanonical : (memory.opcodeAt address).canonical? =
      some ((m.canonical mode).1, (m.canonical mode).2) := by
    rw [hopcode]
    exact Opcode.canonical?_of_opcode? ho
  rw [decode?_of_canonical? hcanonical, hopcode, m.operandLength_canonical mode, if_neg]
  -- The one way not to be decoded is a post-byte without an index register.
  rintro ⟨hmode, hnone⟩
  obtain ⟨base, hbase⟩ := hindex ((m.canonical_indexed mode).mp hmode)
  rw [hbase, IndexRegister.ofPostByte?_postByte] at hnone
  cases hnone

/-- Nothing is read back without taking bytes. -/
theorem length_pos_of_decode? {memory : Memory} {address : Word} {d : Decoded}
    (h : memory.decode? address = some d) : 0 < d.length := by
  have hopcode := (memory.opcodeAt address).length_pos
  rcases hcanonical : (memory.opcodeAt address).canonical? with _ | ⟨m, mode⟩
  · unfold decode? at h
    simp [hcanonical] at h
  · rw [decode?_of_canonical? hcanonical] at h
    split at h
    · cases h
    · cases h
      show 0 < (memory.opcodeAt address).length + m.operandLength mode
      omega

/-! ## Sweeps -/

/-- The addresses of the instructions that are read back one after the other from an address on, if
they end exactly at `stop`. -/
def sweep (memory : Memory) (stop address : Nat) : Option (List Nat) :=
  if address < stop then
    match _hd : memory.decode? (UInt16.ofNat address) with
    | none => none
    | some d => (memory.sweep stop (address + d.length)).map fun rest => address :: rest
  else if address = stop then some []
  else none
termination_by stop - address
decreasing_by
  have hlength := length_pos_of_decode? _hd
  omega

theorem sweep_stop (memory : Memory) (stop : Nat) : memory.sweep stop stop = some [] := by
  rw [sweep, if_neg (Nat.lt_irrefl stop), if_pos rfl]

theorem sweep_of_decode? {memory : Memory} {stop address : Nat} {d : Decoded}
    (hlt : address < stop) (h : memory.decode? (UInt16.ofNat address) = some d) :
    memory.sweep stop address =
      (memory.sweep stop (address + d.length)).map fun rest => address :: rest := by
  rw [sweep, if_pos hlt]
  split
  · rename_i hnone
    rw [h] at hnone
    cases hnone
  · rename_i d' hd'
    rw [h] at hd'
    cases hd'
    rfl

end Memory

/-! ## Assembled programs -/

namespace Program
namespace WellFormed

variable {p : Program} {i : PlacedInstruction}

/-- An instruction of the indexed mode has the post-byte of its index register behind its opcode. -/
theorem read_store_index (hp : p.WellFormed) (hi : i ∈ p.lines) (hmode : i.mode = .indexed) :
    ∃ base : IndexRegister,
      p.store.read (i.address + UInt16.ofNat i.opcode.length) = base.postByte := by
  have hshape := (hp.sound i hi).mode
  have hbytes := hp.resolved i hi
  rw [hmode] at hshape
  rcases hoperand : i.operand with _ | _ | _ | _ | ⟨offset, base⟩ | _ | _ <;>
    rw [hoperand] at hshape <;> try cases hshape
  rw [hoperand] at hbytes
  have hfield : i.field = [base.postByte, offset.toUInt8] := by
    rw [PlacedInstruction.field, hoperand, ← Except.ok.inj hbytes]
    rfl
  refine ⟨base, hp.read_store_field hi (j := 0) ?_⟩
  rw [hfield]
  rfl

/-- Every instruction is read back at its address. -/
theorem decode?_store (hp : p.WellFormed) (hi : i ∈ p.lines) :
    p.store.decode? i.address = some
      { mnemonic := (i.mnemonic.canonical i.mode).1
        mode := (i.mnemonic.canonical i.mode).2
        length := i.size } := by
  refine Memory.decode?_eq (hp.sound i hi).opcode (fun j value hj => ?_) ?_
  · apply hp.read_store hi
    have hinside : j < i.opcode.bytes.length := (List.getElem?_eq_some_iff.mp hj).1
    rw [i.bytes_eq, List.getElem?_append_left hinside]
    exact hj
  · exact hp.read_store_index hi

/-- A sweep from an instruction on goes through the instructions that follow. -/
theorem sweep_store (hp : p.WellFormed) {n k : Nat} (hcount : k + n = p.lines.length) :
    p.store.sweep p.stop (p.position k) =
      some ((p.lines.drop k).map fun i => i.address.toNat) := by
  -- On the number of instructions left: the decoded length leads to the position of the next one.
  induction n generalizing k with
  | zero =>
    have hk : k = p.lines.length := by omega
    rw [hk, ← hp.laid.stop_eq, Memory.sweep_stop, List.drop_length]
    rfl
  | succ n ih =>
    have hlt : k < p.lines.length := by omega
    have hk : p.lines[k]? = some p.lines[k] := List.getElem?_eq_getElem hlt
    have hbelow : p.position k < p.stop := by
      rw [hp.laid.stop_eq]
      exact Program.position_lt hlt (Nat.le_refl _)
    have hdecode := hp.decode?_store (List.getElem_mem hlt)
    rw [← UInt16.ofNat_toNat (x := p.lines[k].address), hp.laid.address k _ hk] at hdecode
    rw [Memory.sweep_of_decode? hbelow hdecode]
    show (p.store.sweep p.stop (p.position k + p.lines[k].size)).map _ = _
    rw [← Program.position_succ hk, ih (by omega), List.drop_eq_getElem_cons hlt, List.map_cons,
      hp.laid.address k _ hk]
    rfl

end WellFormed
end Program

/-- Loaded into an empty memory, an assembled program loses no byte, every instruction is read back
at its address with its own length, and a sweep from the origin visits exactly the addresses of the
instructions, in order, and arrives at the end. -/
theorem decode_of_assemble {source : String} {p : Program} (h : assemble source = .ok p) :
    p.store = Memory.empty.load origin.toNat p.image ∧
    origin.toNat + p.image.length ≤ Memory.size ∧
    (∀ n value, p.image[n]? = some value →
      p.store.read (UInt16.ofNat (origin.toNat + n)) = value) ∧
    (∀ i ∈ p.lines, p.store.decode? i.address = some
      { mnemonic := (i.mnemonic.canonical i.mode).1
        mode := (i.mnemonic.canonical i.mode).2
        length := i.size }) ∧
    p.store.sweep p.stop origin.toNat = some (p.lines.map fun i => i.address.toNat) := by
  have hp := assemble_wellFormed h
  refine ⟨rfl, hp.image_fits, fun n value hn => hp.read_store_origin hn,
    fun i hi => hp.decode?_store hi, ?_⟩
  exact hp.sweep_store (k := 0) (Nat.zero_add _)

/-- Operand bytes that look like opcodes, a jump to a label and `END` are passed over. -/
theorem decode_of_assemble_jump :
    ∃ p, assemble "BACK: LDX #$3F86\n STY $10,S\n JSR BACK\nEND" = .ok p ∧
      p.store.sweep p.stop origin.toNat = some (p.lines.map fun i => i.address.toNat) ∧
      p.lines.map (fun i => i.address.toNat) = [0xFE00, 0xFE03, 0xFE07, 0xFE0A] := by
  obtain ⟨p, hp, haddresses⟩ := Except.exists_of_any
    (x := assemble "BACK: LDX #$3F86\n STY $10,S\n JSR BACK\nEND")
    (q := fun p => p.lines.map (fun i => i.address.toNat) == [0xFE00, 0xFE03, 0xFE07, 0xFE0A])
    (by decide +kernel)
  exact ⟨p, hp, (decode_of_assemble hp).2.2.2.2, by simpa using haddresses⟩

end Teach6809
