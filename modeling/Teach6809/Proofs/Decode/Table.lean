import Teach6809.Proofs.Decode.RoundTrip

/-!
# Reading any memory back

Whatever a memory holds, decoding it is looking up the opcode map backwards: it answers an entry of
the map whose bytes stand at the address (`Memory.Holds`), and every entry whose bytes stand there
is answered, as the one entry with these bytes that is no alias (`Mnemonic.isAlias`). Addresses
wrap, so an instruction may begin at the top of memory and go on at the bottom. Main statement:
`decode_of_memory`.
-/

namespace Teach6809

/-- Whether an entry of the opcode map is a second reading of its bytes: `END`, which reads as
`SWI`, and a jump or call to a label, which reads as one to an address. -/
def Mnemonic.isAlias (m : Mnemonic) (mode : AddressingMode) : Bool :=
  m == .stop || mode == .relative && (m == .jmp || m == .jsr)

/-- The canonical reading of an entry is the entry itself, aliases apart. -/
theorem Mnemonic.canonical_eq_self_iff (m : Mnemonic) (mode : AddressingMode) :
    m.canonical mode = (m, mode) ↔ m.isAlias mode = false := by
  unfold canonical isAlias
  split
  · simp
  · simp
  · simp
  · rename_i hstop hjmp hjsr
    simp only [true_iff, Bool.or_eq_false_iff, Bool.and_eq_false_iff, beq_eq_false_iff_ne]
    refine ⟨hstop, ?_⟩
    by_cases hmode : mode = .relative
    · exact .inr ⟨fun h => hjmp h hmode, fun h => hjsr h hmode⟩
    · exact .inl hmode

/-- What an opcode is read back as has this opcode. -/
theorem Opcode.opcode?_of_canonical? {o : Opcode} {m : Mnemonic} {mode : AddressingMode}
    (h : o.canonical? = some (m, mode)) : m.opcode? mode = some o := by
  unfold canonical? at h
  simpa using List.find?_some h

namespace Memory

/-- The bytes of an opcode stand in memory from an address on, and in the indexed mode the post-byte
of an index register behind them. -/
structure Holds (memory : Memory) (address : Word) (mode : AddressingMode) (o : Opcode) : Prop where
  opcode : ∀ j value, o.bytes[j]? = some value → memory.read (address + UInt16.ofNat j) = value
  index : mode = .indexed → ∃ base : IndexRegister,
    memory.read (address + UInt16.ofNat o.length) = base.postByte

variable {memory : Memory} {address : Word}

/-- The opcode that is found at an address has its bytes there. -/
theorem read_of_opcodeAt {j : Nat} {value : Byte}
    (h : (memory.opcodeAt address).bytes[j]? = some value) :
    memory.read (address + UInt16.ofNat j) = value := by
  have hzero : address + UInt16.ofNat 0 = address := UInt16.add_zero _
  unfold opcodeAt at h
  split at h
  · rename_i hpage
    match j, h with
    | 0, h =>
      rw [hzero, hpage]
      exact Option.some.inj h
    | 1, h => exact Option.some.inj h
  · match j, h with
    | 0, h =>
      rw [hzero]
      exact Option.some.inj h

/-- What is read back from memory, with nothing said of how it is found. -/
theorem decode?_eq_some_iff {d : Decoded} :
    memory.decode? address = some d ↔
      d.mnemonic.isAlias d.mode = false ∧
        ∃ o, d.mnemonic.opcode? d.mode = some o ∧ memory.Holds address d.mode o ∧
          d.length = o.length + d.mnemonic.operandLength d.mode := by
  constructor
  · intro h
    cases hcanonical : (memory.opcodeAt address).canonical? with
    | none =>
      unfold decode? at h
      simp [hcanonical] at h
    | some entry =>
      obtain ⟨m, mode⟩ := entry
      have hentry := Opcode.opcode?_of_canonical? hcanonical
      -- The entry that was found is the canonical reading of itself, so it is no alias.
      have hself := Opcode.canonical?_of_opcode? hentry
      rw [hcanonical] at hself
      have halias := (m.canonical_eq_self_iff mode).mp (Option.some.inj hself).symm
      rw [decode?_of_canonical? hcanonical] at h
      split at h
      · cases h
      · rename_i hindex
        cases h
        refine ⟨halias, memory.opcodeAt address, hentry, ⟨fun j value => read_of_opcodeAt, ?_⟩, rfl⟩
        intro hmode
        obtain ⟨base, hbase⟩ := Option.ne_none_iff_exists'.mp fun hnone => hindex ⟨hmode, hnone⟩
        unfold IndexRegister.ofPostByte? at hbase
        have hbyte := List.find?_some hbase
        exact ⟨base, (eq_of_beq hbyte).symm⟩
  · rintro ⟨halias, o, hentry, hholds, hlength⟩
    have hself := (d.mnemonic.canonical_eq_self_iff d.mode).mpr halias
    rw [decode?_eq hentry hholds.opcode hholds.index, hself, ← hlength]

end Memory

/-- Decoding is sound and complete over every memory and address. What is read back is an entry of
the opcode map whose bytes stand at the address, with a post-byte behind them in the indexed mode,
and its length is that of opcode and operand. Wherever the bytes of an entry stand, one entry with
these bytes is read back, and an entry with these bytes is that one exactly if it is no alias. -/
theorem decode_of_memory (memory : Memory) (address : Word) :
    (∀ d, memory.decode? address = some d →
      ∃ o, d.mnemonic.opcode? d.mode = some o ∧ memory.Holds address d.mode o ∧
        d.length = o.length + d.mnemonic.operandLength d.mode) ∧
    ∀ (m : Mnemonic) mode o, m.opcode? mode = some o → memory.Holds address mode o →
      ∃ d, memory.decode? address = some d ∧ d.mnemonic.opcode? d.mode = some o ∧
        d.length = o.length + m.operandLength mode ∧
        ∀ (m' : Mnemonic) mode', m'.opcode? mode' = some o →
          ((d.mnemonic, d.mode) = (m', mode') ↔ m'.isAlias mode' = false) := by
  refine ⟨fun d hd => (Memory.decode?_eq_some_iff.mp hd).2, fun m mode o hentry hholds => ?_⟩
  have hcanonical := Opcode.canonical?_of_opcode? hentry
  refine ⟨_, Memory.decode?_eq hentry hholds.opcode hholds.index,
    Opcode.opcode?_of_canonical? hcanonical, rfl, fun m' mode' hentry' => ?_⟩
  -- Entries with the same opcode have the same canonical reading.
  have hcanonical' := Opcode.canonical?_of_opcode? hentry'
  rw [hcanonical] at hcanonical'
  show m.canonical mode = (m', mode') ↔ _
  rw [Option.some.inj hcanonical']
  exact m'.canonical_eq_self_iff mode'

/-- A paged opcode at the top of memory, of which the second byte is at the bottom, and a post-byte
behind it. -/
theorem decode_of_memory_wrapped :
    let memory := ((Memory.empty.write 0xFFFF 0x10).write 0x0000 0xAE).write 0x0001 0xA4
    Mnemonic.opcode? (.load .y) .indexed = some ⟨true, 0xAE⟩ ∧
      memory.Holds 0xFFFF .indexed ⟨true, 0xAE⟩ ∧
      memory.decode? 0xFFFF = some ⟨.load .y, .indexed, 4⟩ := by
  intro memory
  have hentry : Mnemonic.opcode? (.load .y) .indexed = some ⟨true, 0xAE⟩ := by decide
  have hholds : memory.Holds 0xFFFF .indexed ⟨true, 0xAE⟩ := by
    refine ⟨fun j value hj => ?_, fun _ => ⟨.y, by decide⟩⟩
    match j, hj with
    | 0, hj => exact (show memory.read 0xFFFF = 0x10 by decide).trans (Option.some.inj hj)
    | 1, hj => exact (show memory.read 0x0000 = 0xAE by decide).trans (Option.some.inj hj)
  obtain ⟨d, hd, -, hlength, hentries⟩ :=
    (decode_of_memory memory 0xFFFF).2 (.load .y) .indexed _ hentry hholds
  have hsame := (hentries _ _ hentry).mpr (by decide)
  refine ⟨hentry, hholds, ?_⟩
  rw [hd]
  obtain ⟨mnemonic, mode, length⟩ := d
  cases hsame
  cases hlength
  rfl

end Teach6809
