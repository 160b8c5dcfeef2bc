import Teach6809.Proofs.Machine.CarriesOut
import Teach6809.Proofs.Machine.Frame

/-!
# Storing a register and loading it back

A register that is stored and then loaded from the same operand comes back, also into another
register of its width, with the sign of what was stored in the flags. The operand names the same
cell both times, because a store writes no register; a word goes to this cell and the one after it,
and the cell after the last is the first. Main statement: this is so in every state, and no other
cell is written.
-/

namespace Teach6809

/-! ## Memory -/

/-- An address is not the one after it, also at the end of the memory. -/
theorem Word.ne_add_one (address : Word) : address ≠ address + 1 := by
  rw [ne_eq, ← UInt16.toNat_inj, UInt16.toNat_add]
  show ¬ address.toNat = (address.toNat + 1) % 65536
  omega

/-- The cell after a cell, and after the last one the first. -/
theorem Word.ofNat_next (cell : Nat) :
    UInt16.ofNat ((cell + 1) % 65536) = UInt16.ofNat cell + 1 := by
  rw [← UInt16.toNat_inj, UInt16.toNat_add, UInt16.toNat_ofNat', UInt16.toNat_ofNat']
  show (cell + 1) % 65536 % 65536 = (cell % 65536 + 1) % 65536
  omega

/-- Stores leave the cells that they do not name. -/
theorem Memory.read_replay_of_forall_ne (memory : Memory) {stores : List (Word × Byte)}
    {address : Word} (h : ∀ store ∈ stores, address ≠ store.1) :
    (memory.replay stores).read address = memory.read address := by
  induction stores generalizing memory with
  | nil => rfl
  | cons store stores ih =>
    have hfirst : (memory.write store.1 store.2).read address = memory.read address := by
      rw [read_write, if_neg (h store List.mem_cons_self)]
    exact (ih _ fun other hother => h other (List.mem_cons_of_mem _ hother)).trans hfirst

/-! ## Loaded values -/

/-- A register holds all of what is loaded at its width. -/
theorem MovedRegister.narrow_of_isWide (target : MovedRegister) (h : target.isWide = true)
    (value : Word) : target.register.narrow value = value := by
  cases target <;> cases h <;> rfl

/-- A byte fits in a narrow register. -/
theorem MovedRegister.narrow_toUInt16 (target : MovedRegister) (h : target.isWide = false)
    (value : Byte) : target.register.narrow value.toUInt16 = value.toUInt16 := by
  have hbyte : value.toUInt16 &&& 0xFF = value.toUInt16 := by
    rw [← Word.toUInt16_toUInt8, UInt8.toUInt8_toUInt16]
  cases target <;> cases h <;> exact hbyte

/-- The negative flag is the top bit of a byte. -/
theorem Flags.negative_ofByte (f : Flags) (value : Byte) :
    (f.ofByte value).negative = true ↔ 0x80 ≤ value.toNat := by
  show Byte.isNegative value = true ↔ _
  rw [Byte.isNegative_eq, BitVec.msb_eq_decide, decide_eq_true_iff]
  rfl

/-- The negative flag is the top bit of a word. -/
theorem Flags.negative_ofWord (f : Flags) (value : Word) :
    (f.ofWord value).negative = true ↔ 0x8000 ≤ value.toNat := by
  have hsign : (value &&& 0x8000).toBitVec =
      if value.toBitVec.msb then (0x8000 : Word).toBitVec else (0 : Word).toBitVec :=
    BitVec.and_twoPow value.toBitVec 15
  have hmsb : value.toBitVec.msb = true ↔ 0x8000 ≤ value.toNat := by
    rw [BitVec.msb_eq_decide, decide_eq_true_iff]
    rfl
  show (value &&& 0x8000 != 0) = true ↔ _
  rw [← hmsb, bne_iff_ne, ne_eq, ← UInt16.toBitVec_inj, hsign]
  cases value.toBitVec.msb <;> decide

namespace Machine

variable {m after : Machine} {i : CheckedInstruction} {outcome : Outcome} {operand : Operand}
  {cell : Nat} {source target : MovedRegister}

/-! ## Stores -/

/-- A register was stored at a cell, a word at this cell and the next one, and nothing else was
changed but `PC`. -/
structure StoredAt (m : Machine) (source : MovedRegister) (cell : Nat) (after : Machine) :
    Prop where
  halt : after.halt = m.halt
  registers : ∀ r, r ≠ .pc → after.get r = m.get r
  flags : after.flags = m.flags
  byte : source.isWide = false →
    after.data.read (UInt16.ofNat cell) = (m.get source.register).toUInt8
  word : source.isWide = true →
    after.data.read (UInt16.ofNat cell) = Word.high (m.get source.register) ∧
      after.data.read (UInt16.ofNat ((cell + 1) % 65536)) = Word.low (m.get source.register)
  others : ∀ address : Word, address.toNat ≠ cell →
    (source.isWide = true → address.toNat ≠ (cell + 1) % 65536) →
    after.data.read address = m.data.read address

/-- The stores of a register are at its address, and at the next one if it is wide. -/
theorem fst_of_mem_entries {address : Word} {store : Word × Byte}
    (h : store ∈ m.entries source address) :
    store.1 = address ∨ source.isWide = true ∧ store.1 = address + 1 := by
  unfold entries at h
  split at h
  · rename_i hwide
    rcases List.mem_pair.mp h with rfl | rfl
    · exact .inl rfl
    · exact .inr ⟨hwide, rfl⟩
  · obtain rfl := List.mem_singleton.mp h
    exact .inl rfl

/-- What a store leaves, from its entries put into the data memory. -/
theorem StoredAt.of_replay (hcell : cell < 65536) (hhalt : after.halt = m.halt)
    (hregisters : ∀ r, r ≠ .pc → after.get r = m.get r) (hflags : after.flags = m.flags)
    (hdata : after.data = m.data.replay (m.entries source (UInt16.ofNat cell))) :
    m.StoredAt source cell after where
  halt := hhalt
  registers := hregisters
  flags := hflags
  byte hnarrow := by
    rw [hdata, entries, hnarrow, if_neg Bool.false_ne_true]
    exact (Memory.read_write _ _ _ _).trans (if_pos rfl)
  word hwide := by
    rw [hdata, entries, if_pos hwide, Word.ofNat_next]
    -- The two bytes of a word are in different cells, so the second store leaves the first.
    show ((m.data.write _ _).write _ _).read _ = _ ∧ ((m.data.write _ _).write _ _).read _ = _
    constructor
    · rw [Memory.read_write, if_neg (Word.ne_add_one _), Memory.read_write, if_pos rfl]
    · rw [Memory.read_write, if_pos rfl]
  others address hfirst hsecond := by
    rw [hdata]
    refine m.data.read_replay_of_forall_ne fun store hstore => ?_
    rintro rfl
    rcases fst_of_mem_entries hstore with heq | ⟨hwide, heq⟩
    · rw [heq, UInt16.toNat_ofNat_of_lt' hcell] at hfirst
      exact hfirst rfl
    · rw [heq, ← Word.ofNat_next, UInt16.toNat_ofNat_of_lt' (Nat.mod_lt _ (by decide))] at hsecond
      exact hsecond hwide rfl

/-- A store to a cell notes its entries and puts them into the data memory. -/
theorem execute_store (source : MovedRegister) (h : m.cell? operand = some cell) (next : Word) :
    m.execute (.store source) operand next =
      .ok ({ m with
        data := m.data.replay (m.entries source (UInt16.ofNat cell))
        writes := m.writes ++ m.entries source (UInt16.ofNat cell) }, .next) := by
  rw [execute, storeRegister, address_of_cell? h, entries]
  cases hwide : source.isWide with
  | true =>
    show Except.ok ((m.store _ _).store _ _, Flow.next) = _
    rw [store, store, List.append_assoc]
    rfl
  | false => rfl

/-- A machine that carries out a store stores its register at the cell that the operand names. -/
theorem CarriesOut.storedAt (h : m.CarriesOut i after outcome)
    (hmnemonic : i.mnemonic = .store source) (hcell : m.cell? i.operand = some cell) :
    outcome = .ok m.halt ∧ m.StoredAt source cell after := by
  have hexecute := execute_store (m := m.ready) source hcell
  rw [← hmnemonic] at hexecute
  obtain ⟨hsame, houtcome, -⟩ := h.of_execute hexecute (by rintro _ ⟨⟩)
  exact ⟨houtcome, .of_replay (cell?_lt hcell) hsame.halt.symm
    (fun r hr => (hsame.registers r hr).symm) hsame.flags.symm hsame.data.symm⟩

/-! ## Loads -/

/-- What a cell and, for a word, the next one hold. -/
def heldAt (m : Machine) (isWide : Bool) (cell : Nat) : Word :=
  if isWide then m.data.readWord (UInt16.ofNat cell)
  else (m.data.read (UInt16.ofNat cell)).toUInt16

/-- A register was loaded with a value, and the flags show the sign of the value at the width of the
register. -/
structure Loaded (m : Machine) (target : MovedRegister) (value : Word) (after : Machine) :
    Prop where
  register : after.get target.register = value
  zero : after.flags.zero = true ↔ value = 0
  negative : after.flags.negative = true ↔
    (if target.isWide then 0x8000 else 0x80) ≤ value.toNat
  data : after.data = m.data

/-- A load from a cell loads what is held there. -/
theorem load_of_cell? (target : MovedRegister) (h : m.cell? operand = some cell) :
    ∃ after, m.load target operand = .ok after ∧ after.halt = m.halt ∧
      m.Loaded target (m.heldAt target.isWide cell) after := by
  have hregister : ∀ value flags,
      (({ m with registers := m.registers.set target.register value } : Machine).setFlags
        flags).get target.register = target.register.narrow value := fun value flags =>
    (get_setFlags target.register_ne_cc flags).trans (m.registers.get_set_self _ value)
  unfold load heldAt
  rw [readWord_of_cell? h, readByte_of_cell? h]
  cases hwide : target.isWide with
  | true =>
    refine ⟨_, rfl, rfl, ?_, beq_iff_eq, ?_, rfl⟩
    · exact (hregister _ _).trans (target.narrow_of_isWide hwide _)
    · rw [hwide]
      exact m.flags.negative_ofWord _
  | false =>
    -- The byte that was read goes through a word; the flags are taken from its low half again.
    have hbyte := UInt8.toUInt8_toUInt16 (m.data.read (UInt16.ofNat cell))
    refine ⟨_, rfl, rfl, ?_, ?_, ?_, rfl⟩
    · exact (hregister _ _).trans (target.narrow_toUInt16 hwide _)
    · show (UInt8.toUInt16 _).toUInt8 == 0 ↔ UInt8.toUInt16 _ = 0
      rw [hbyte, beq_iff_eq, ← UInt8.toNat_inj, ← UInt16.toNat_inj, UInt8.toNat_toUInt16]
      rfl
    · refine (m.flags.negative_ofByte _).trans ?_
      rw [hwide, hbyte, ← UInt8.toNat_toUInt16]
      rfl

/-- A machine that carries out a load loads what the cell that the operand names holds. -/
theorem CarriesOut.loaded (h : m.CarriesOut i after outcome) (hmnemonic : i.mnemonic = .load target)
    (hcell : m.cell? i.operand = some cell) :
    outcome = .ok m.halt ∧ m.Loaded target (m.heldAt target.isWide cell) after := by
  obtain ⟨moved, hload, hhalt, hloaded⟩ := load_of_cell? (m := m.ready) target hcell
  have hexecute : ∀ next, m.ready.execute i.mnemonic i.operand next = .ok (moved, .next) := by
    intro next
    rw [hmnemonic, execute, hload]
    rfl
  obtain ⟨hsame, houtcome, -⟩ := h.of_execute hexecute (by rintro _ ⟨⟩)
  have hpc : target.register ≠ .pc := by cases target <;> decide
  refine ⟨houtcome.trans (congrArg Except.ok hhalt), ?_, ?_, ?_, ?_⟩
  · rw [← hsame.registers _ hpc]
    exact hloaded.register
  · rw [← hsame.flags]
    exact hloaded.zero
  · rw [← hsame.flags]
    exact hloaded.negative
  · rw [← hsame.data]
    exact hloaded.data

/-! ## Stores and loads -/

/-- A cell where a register was stored holds the register. -/
theorem StoredAt.heldAt (h : m.StoredAt source cell after) :
    after.heldAt source.isWide cell = m.get source.register := by
  unfold Machine.heldAt
  cases hwide : source.isWide with
  | true =>
    obtain ⟨hhigh, hlow⟩ := h.word hwide
    rw [if_pos rfl, Memory.readWord, hhigh, ← Word.ofNat_next, hlow, Word.ofBytes_high_low]
  | false =>
    have hbyte : (m.get source.register).toUInt8.toUInt16 = m.get source.register := by
      cases source <;> cases hwide <;> exact congrArg _ (UInt8.toUInt8_toUInt16 _)
    rw [if_neg Bool.false_ne_true, h.byte hwide, hbyte]

/-- The cell that an operand names depends on no more than the registers. -/
theorem cell?_congr (h : ∀ r, r ≠ .pc → after.get r = m.get r) (operand : Operand) :
    after.cell? operand = m.cell? operand := by
  cases operand with
  | indexed offset base =>
    have hbase : base.register ≠ .pc := by cases base <;> decide
    rw [cell?, h _ hbase, cell?]
  | direct low => rw [cell?, h .dp (by decide), cell?]
  | _ => rfl

end Machine

/-- In every state a register that was stored at a direct, extended or indexed operand comes back
when a register of the same width is loaded from this operand, and the flags show its sign. The
store writes the one or two cells that are addressed. Executing it writes no register and no flag;
only then does control go on and `PC` with it. -/
theorem stored_and_reloaded {m stored loaded : Machine} {i j : CheckedInstruction}
    {outcome outcome' : Machine.Outcome} (hstore : m.CarriesOut i stored outcome)
    (hload : stored.CarriesOut j loaded outcome') {source target : MovedRegister}
    (hsource : i.mnemonic = .store source) (htarget : j.mnemonic = .load target)
    (hwidth : target.isWide = source.isWide) (hoperand : j.operand = i.operand) {cell : Nat}
    (hcell : m.cell? i.operand = some cell) :
    outcome = .ok m.halt ∧ outcome' = .ok m.halt ∧ m.StoredAt source cell stored ∧
      stored.Loaded target (m.get source.register) loaded ∧
      ∀ next, ∃ executed, m.execute i.mnemonic i.operand next = .ok (executed, .next) ∧
        executed.registers = m.registers := by
  obtain ⟨houtcome, hstored⟩ := hstore.storedAt hsource hcell
  have hsame : stored.cell? j.operand = some cell := by
    rw [hoperand, Machine.cell?_congr hstored.registers, hcell]
  -- What the load finds in the cell is what the store has put there.
  obtain ⟨houtcome', hloaded⟩ := hload.loaded htarget hsame
  rw [hstored.halt] at houtcome'
  rw [hwidth, hstored.heldAt] at hloaded
  refine ⟨houtcome, houtcome', hstored, hloaded, fun next => ?_⟩
  rw [hsource]
  exact ⟨_, Machine.execute_store source hcell next, rfl⟩

/-- A word stored at the last cell and the first, and loaded into another register. -/
theorem stored_and_reloaded_wrapped :
    ∃ p, assemble " STX -1,Y\n LDU -1,Y\n END" = .ok p ∧
      let m := (Machine.start p).performAll [.set .x 0x9234]
      let stored := m.step.1
      let loaded := stored.step.1
      stored.data.read 0xFFFF = 0x92 ∧ stored.data.read 0 = 0x34 ∧
      loaded.get .u = 0x9234 ∧ loaded.flags.negative = true := by
  obtain ⟨p, hp, htest⟩ := Except.exists_of_any
    (x := assemble " STX -1,Y\n LDU -1,Y\n END")
    (q := fun p =>
      let m := (Machine.start p).performAll [.set .x 0x9234]
      m.halt == none && m.get .x == 0x9234 && m.step.1.halt == none &&
        m.current?.any fun i => m.step.1.current?.any fun j =>
          i.mnemonic == .store .x && m.cell? i.operand == some 0xFFFF &&
            j.mnemonic == .load .u && j.operand == i.operand)
    (by decide +kernel)
  simp only [Bool.and_eq_true, beq_iff_eq, Option.any_eq_true, and_assoc] at htest
  obtain ⟨hrunning, hx, hrunning', i, hi, j, hj, hsource, hcell, htarget, hoperand⟩ := htest
  obtain ⟨-, -, hstored, hloaded, -⟩ := stored_and_reloaded (.stepped hrunning hi)
    (.stepped hrunning' hj) hsource htarget rfl hoperand hcell
  obtain ⟨hhigh, hlow⟩ := hstored.word rfl
  have hregister := hloaded.register
  have hnegative := hloaded.negative
  rw [show MovedRegister.register .x = .x from rfl, hx] at hhigh hlow hregister hnegative
  exact ⟨p, hp, hhigh, hlow, hregister, hnegative.mpr (by decide)⟩

end Teach6809
