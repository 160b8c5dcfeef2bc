import Teach6809.Proofs.Arithmetic
import Teach6809.Proofs.Machine.Cell
import Teach6809.Proofs.Machine.Fault
import Teach6809.Proofs.Machine.Replay

/-!
# What a step leaves alone

An instruction names the registers it writes (`CheckedInstruction.destinations`), and its operation
says which flags it sets or clears (`CheckedInstruction.changedFlags`). Every other register and
flag stays as it was; the data memory changes by the noted stores only, and stores are made by `ST`
only. Main statement: a step at an instruction of an assembled program keeps to this
(`Machine.Frame`).
-/

namespace Teach6809

/-- Every flag. -/
def Flag.all : List Flag := [.halfCarry, .negative, .zero, .overflow, .carry]

theorem Flag.mem_all (flag : Flag) : flag ∈ all := by cases flag <;> decide

theorem MovedRegister.register_ne_cc (r : MovedRegister) : r.register ≠ .cc := by
  cases r <;> decide

theorem Accumulator.register_ne_cc (acc : Accumulator) : acc.register ≠ .cc := by
  cases acc <;> decide

namespace CheckedInstruction

/-- The registers that an instruction writes. -/
def destinations (i : CheckedInstruction) : List Register :=
  match i.mnemonic, i.operand with
  | .load target, _ => [target.register]
  | .binary operation acc, _ => if operation = .cmp then [] else [acc.register]
  | .unary _ acc, _ => [acc.register]
  | .tfr, .pair _ target => [target]
  | .exg, .pair left right => [left, right]
  | _, _ => []

/-- The flags that an instruction sets or clears. -/
def changedFlags (i : CheckedInstruction) : List Flag :=
  match i.mnemonic with
  | .load _ => [.negative, .zero]
  | .binary operation _ => operation.changedFlags
  | .unary operation _ => operation.changedFlags
  | .tfr | .exg => if .cc ∈ i.destinations then Flag.all else []
  | _ => []

end CheckedInstruction

namespace Machine

variable {m after : Machine} {i : CheckedInstruction} {next : Word} {flow : Flow}

/-! ## Single registers -/

/-- Flags are in no other register. -/
theorem get_setFlags {r : Register} (hr : r ≠ .cc) (flags : Flags) :
    (m.setFlags flags).get r = m.get r := by
  cases r with
  | cc => exact absurd rfl hr
  | _ => rfl

/-- Writing another register leaves the flags alone. -/
theorem flags_set {r : Register} (hr : r ≠ .cc) (value : Word) :
    (m.set r value).flags = m.flags := by
  cases r with
  | cc => exact absurd rfl hr
  | _ => rfl

/-- Writing a register leaves those alone that share nothing with it. -/
theorem get_set_of_disjoint {r other : Register} (h : other.overlaps r = false) (value : Word) :
    (m.set r value).get other = m.get other :=
  m.registers.get_set_of_disjoint h value

/-! ## Instructions -/

/-- The registers and flags that an instruction does not write are as they were. -/
structure Spares (m : Machine) (i : CheckedInstruction) (after : Machine) : Prop where
  registers : ∀ r, r ≠ .cc → (∀ written ∈ i.destinations, r.overlaps written = false) →
    after.get r = m.get r
  flags : ∀ flag, flag ∉ i.changedFlags → after.flags.get flag = m.flags.get flag

/-- Whoever leaves all registers alone spares those of any instruction. -/
theorem Spares.of_registers (h : after.registers = m.registers) : m.Spares i after where
  registers r _ _ := congrArg (fun registers : RegisterFile => registers.get r) h
  flags flag _ := congrArg (fun registers : RegisterFile => registers.cc.get flag) h

/-- A load writes its register and the flags. -/
theorem load_spares {target : MovedRegister} (hmnemonic : i.mnemonic = .load target)
    (h : m.load target i.operand = .ok after) : m.Spares i after := by
  have hdestinations : i.destinations = [target.register] := by
    rw [CheckedInstruction.destinations, hmnemonic]
  have hflags : i.changedFlags = [.negative, .zero] := by
    rw [CheckedInstruction.changedFlags, hmnemonic]
  -- Loads of both widths write the register and then the flags.
  have hspares : ∀ value flags, (∀ flag, flag ∉ i.changedFlags →
      flags.get flag = m.flags.get flag) →
      m.Spares i (({ m with registers := m.registers.set target.register value } : Machine).setFlags
        flags) := by
    intro value flags hkept
    refine ⟨fun r hr hdisjoint => ?_, hkept⟩
    have htarget : r.overlaps target.register = false :=
      hdisjoint _ (by rw [hdestinations]; exact List.mem_singleton_self _)
    exact (get_setFlags hr flags).trans (m.registers.get_set_of_disjoint htarget value)
  unfold load at h
  split at h
  all_goals
    obtain ⟨value, -, h⟩ := Except.bind_eq_ok.mp h
    cases h
    refine hspares value _ fun flag hflag => ?_
    rw [hflags] at hflag
  · exact m.flags.get_ofWord value hflag
  · exact m.flags.get_ofByte value.toUInt8 hflag

/-- A store writes the flags. -/
theorem storeRegister_spares {source : MovedRegister}
    (h : m.storeRegister source i.operand = .ok after) : m.Spares i after := by
  unfold storeRegister at h
  obtain ⟨address, -, h⟩ := Except.bind_eq_ok.mp h
  dsimp only at h
  split at h
  all_goals
    cases h
    exact .of_registers rfl

/-- An operation that writes flags and then its accumulator. -/
theorem setAccumulator_spares {acc : Accumulator} {flags : Flags} {value : Byte}
    (hdestination : acc.register ∈ i.destinations)
    (hflags : ∀ flag, flag ∉ i.changedFlags → flags.get flag = m.flags.get flag) :
    m.Spares i ((m.setFlags flags).setAccumulator acc value) where
  registers r hr hdisjoint :=
    (get_set_of_disjoint (hdisjoint _ hdestination) _).trans (get_setFlags hr flags)
  flags flag hflag := by
    rw [setAccumulator, flags_set acc.register_ne_cc]
    exact hflags flag hflag

/-- An operation with an operand writes its accumulator, unless it compares, and the flags. -/
theorem binary_spares {operation : BinaryOperation} {acc : Accumulator}
    (hmnemonic : i.mnemonic = .binary operation acc)
    (h : m.binary operation acc i.operand = .ok after) : m.Spares i after := by
  have hkept : ∀ a b, ∀ flag, flag ∉ i.changedFlags →
      (operation.apply a b m.flags).flags.get flag = m.flags.get flag := by
    intro a b flag hflag
    rw [CheckedInstruction.changedFlags, hmnemonic] at hflag
    exact operation.get_flags_apply a b m.flags hflag
  unfold binary at h
  obtain ⟨value, -, h⟩ := Except.bind_eq_ok.mp h
  cases h
  split
  · rename_i hkeeps
    refine setAccumulator_spares ?_ (hkept _ _)
    -- A comparison keeps no result, so only its flags change.
    have hcmp : operation ≠ .cmp := by
      rintro rfl
      cases hkeeps
    simp [CheckedInstruction.destinations, hmnemonic, hcmp]
  · exact ⟨fun r hr _ => get_setFlags hr _, hkept _ _⟩

/-- An operation without an operand writes its accumulator and the flags. -/
theorem unary_spares {operation : UnaryOperation} {acc : Accumulator}
    (hmnemonic : i.mnemonic = .unary operation acc) : m.Spares i (m.unary operation acc) := by
  refine setAccumulator_spares ?_ fun flag hflag => ?_
  · simp [CheckedInstruction.destinations, hmnemonic]
  · rw [CheckedInstruction.changedFlags, hmnemonic] at hflag
    exact operation.get_flags_apply _ m.flags hflag

theorem Spares.trans {n : Machine} (h : m.Spares i n) (h' : n.Spares i after) :
    m.Spares i after where
  registers r hr hdisjoint := (h'.registers r hr hdisjoint).trans (h.registers r hr hdisjoint)
  flags flag hflag := (h'.flags flag hflag).trans (h.flags flag hflag)

/-- A register of a pair is written; if it is `CC`, every flag may change. -/
theorem set_spares {r : Register} {value : Word} (hpair : i.mnemonic.takesPair = true)
    (hdestination : r ∈ i.destinations) : m.Spares i (m.set r value) where
  registers other _ hdisjoint := get_set_of_disjoint (hdisjoint r hdestination) value
  flags flag hflag := by
    by_cases hcc : r = .cc
    · subst hcc
      refine absurd flag.mem_all ?_
      unfold CheckedInstruction.changedFlags at hflag
      cases hmnemonic : i.mnemonic with
      | tfr | exg => simpa only [hmnemonic, if_pos hdestination] using hflag
      | _ =>
        rw [hmnemonic] at hpair
        cases hpair
    · rw [flags_set hcc]

/-- Every instruction that is executed writes the registers it names and the flags of its
operation only. -/
theorem execute_spares (h : m.execute i.mnemonic i.operand next = .ok (after, flow)) :
    m.Spares i after := by
  generalize hmnemonic : i.mnemonic = instruction at h
  cases instruction with
  | load target =>
    obtain ⟨loaded, hload, heq⟩ := Except.map_eq_ok.mp h
    cases heq
    exact load_spares hmnemonic hload
  | store source =>
    obtain ⟨stored, hstore, heq⟩ := Except.map_eq_ok.mp h
    cases heq
    exact storeRegister_spares hstore
  | binary operation acc =>
    obtain ⟨computed, hcompute, heq⟩ := Except.map_eq_ok.mp h
    cases heq
    exact binary_spares hmnemonic hcompute
  | unary operation acc =>
    cases h
    exact unary_spares hmnemonic
  | nop | rts | swi | stop | branch | bsr | jsr | jmp =>
    obtain ⟨callStack, rfl⟩ := exists_callStack_of_execute rfl h
    exact .of_registers rfl
  | tfr =>
    obtain ⟨⟨source, target⟩, hpair, heq⟩ := Except.map_eq_ok.mp h
    obtain rfl : _ = after := congrArg Prod.fst heq
    have hdestination : target ∈ i.destinations := by
      simp [CheckedInstruction.destinations, hmnemonic, pair_eq_ok hpair]
    exact set_spares (by rw [hmnemonic]; rfl) hdestination
  | exg =>
    obtain ⟨⟨left, right⟩, hpair, heq⟩ := Except.map_eq_ok.mp h
    obtain rfl : _ = after := congrArg Prod.fst heq
    have hdestinations : left ∈ i.destinations ∧ right ∈ i.destinations := by
      simp [CheckedInstruction.destinations, hmnemonic, pair_eq_ok hpair]
    have htakesPair : i.mnemonic.takesPair = true := by rw [hmnemonic]; rfl
    -- An exchange is two writes, one after the other.
    exact (set_spares htakesPair hdestinations.1).trans (set_spares htakesPair hdestinations.2)

/-- A store that is executed stores its register at the cell that the operand names. -/
theorem storedBy_of_execute {source : MovedRegister} (hmnemonic : i.mnemonic = .store source)
    (h : m.execute i.mnemonic i.operand next = .ok (after, flow)) :
    ∃ cell, m.cell? i.operand = some cell ∧
      m.storedBy i.mnemonic i.operand = m.entries source (UInt16.ofNat cell) := by
  rw [hmnemonic] at h
  obtain ⟨stored, hstore, -⟩ := Except.map_eq_ok.mp h
  obtain ⟨address, haddress, -⟩ := Except.bind_eq_ok.mp hstore
  obtain ⟨cell, hcell⟩ := exists_cell? haddress
  exact ⟨cell, hcell, by simp only [storedBy, hmnemonic, address_of_cell? hcell]⟩

/-- Only stores store. -/
theorem storedBy_eq_nil (hstore : ∀ source, i.mnemonic ≠ .store source) :
    m.storedBy i.mnemonic i.operand = [] := by
  unfold storedBy
  split
  · rename_i source _ hmnemonic _
    exact absurd hmnemonic (hstore source)
  · rfl

/-! ## Steps -/

/-- What a step at an instruction has done, and that it has done nothing else. -/
structure Frame (m : Machine) (i : PlacedInstruction) (after : Machine) : Prop where
  program : after.program = m.program
  steps : after.steps = m.steps + 1
  halt : after.halt.isSome = true ↔ m.ends i.toCheckedInstruction = true
  callStack : after.callStack = m.stackAfter i.toCheckedInstruction i.next
  registers : ∀ r, r ≠ .pc → r ≠ .cc →
    (∀ written ∈ i.destinations, r.overlaps written = false) → after.get r = m.get r
  flags : ∀ flag, flag ∉ i.changedFlags → after.flags.get flag = m.flags.get flag
  data : after.data = m.data.replay after.writes
  /-- A store notes one entry for a byte and two for a word, the high byte first. -/
  stores : ∀ source, i.mnemonic = .store source →
    ∃ cell, m.cell? i.operand = some cell ∧ after.writes = m.entries source (UInt16.ofNat cell)
  quiet : (∀ source, i.mnemonic ≠ .store source) → after.writes = []

/-- What comes after the execution writes no register but the program counter. -/
theorem get_finish {r : Register} (hr : r ≠ .pc) (after : Machine) (i : PlacedInstruction)
    (flow : Flow) : (after.finish i flow).get r = after.get r := by
  cases r with
  | pc => exact absurd rfl hr
  | _ => cases flow <;> rfl

/-- An executed instruction leaves the machine stopped if it ends the program. -/
theorem halt_finish {i : PlacedInstruction} (hrunning : m.halt = none)
    (h : m.Executed i.toCheckedInstruction next after flow) :
    (after.finish i flow).halt.isSome = true ↔ m.ends i.toCheckedInstruction = true := by
  rw [← h.ends]
  have hafter : after.halt = none := by rw [h.halt, hrunning, ite_self]
  cases flow with
  | halt reason => exact ⟨fun _ => ⟨reason, rfl⟩, fun _ => rfl⟩
  | next | jump =>
    constructor
    · intro hstopped
      rw [show (after.finish i _).halt = after.halt from rfl, hafter] at hstopped
      cases hstopped
    · rintro ⟨reason, hreason⟩
      cases hreason

/-- Executing, counting and following an instruction keeps to its frame. -/
theorem frame_of_execute {i : PlacedInstruction} (hrunning : m.halt = none)
    (h : m.ready.execute i.mnemonic i.operand i.next = .ok (after, flow)) :
    m.Frame i (after.finish i flow) := by
  have hexecuted : m.ready.Executed i.toCheckedInstruction i.next after flow := executed h
  have hspares : m.ready.Spares i.toCheckedInstruction after := execute_spares h
  have hstores := execute_stores h
  have hwrites : (after.finish i flow).writes = m.ready.storedBy i.mnemonic i.operand := by
    cases flow <;> exact hstores.writes
  -- The data are those of before with the stores replayed, wherever control goes.
  have hdata : (after.finish i flow).data = m.data.replay (after.finish i flow).writes := by
    rw [hwrites]
    cases flow <;> exact hstores.data
  exact
    { program := by cases flow <;> exact hexecuted.program
      steps := by cases flow <;> exact congrArg (· + 1) hexecuted.steps
      halt := halt_finish (m := m.ready) hrunning hexecuted
      callStack := by cases flow <;> exact hexecuted.callStack
      registers := fun r hpc hcc hdisjoint =>
        (get_finish hpc after i flow).trans (hspares.registers r hcc hdisjoint)
      flags := fun flag hflag => by cases flow <;> exact hspares.flags flag hflag
      data := hdata
      stores := fun source hsource => by
        obtain ⟨cell, hcell, hstored⟩ := storedBy_of_execute hsource h
        exact ⟨cell, hcell, hwrites.trans hstored⟩
      quiet := fun hother => hwrites.trans (storedBy_eq_nil hother) }

/-- A step at an instruction of a well-formed program succeeds and keeps to its frame. -/
theorem frame_of_step {p : Program} (hp : p.WellFormed) (hm : m.program = p)
    (hrunning : m.halt = none) {i : PlacedInstruction} (hcurrent : m.current? = some i) :
    m.step.2 = .ok m.step.1.halt ∧ m.Frame i m.step.1 := by
  -- That it succeeds is what checking the program was for.
  obtain ⟨after, flow, hexecute⟩ := execute_current_ok hp hm hcurrent
  rw [step_of_execute hrunning hcurrent hexecute]
  exact ⟨rfl, frame_of_execute hrunning hexecute⟩

/-- A step at an instruction that does not end the program leaves the machine running. -/
theorem Frame.goesOn {i : PlacedInstruction} (h : m.Frame i after)
    (hends : m.ends i.toCheckedInstruction = false) : after.halt = none := by
  have hstopped := h.halt
  rw [hends] at hstopped
  cases hhalt : after.halt with
  | none => rfl
  | some reason =>
    rw [hhalt] at hstopped
    cases hstopped.mp rfl

end Machine

/-- In whatever state a machine with an assembled program is, if it is not stopped and stands at an
instruction, its step succeeds and changes nothing but the program counter, the count of steps and
what the instruction is there to change: the registers it writes, the flags of its operation, the
call stack for a call or a return, the data memory for a store, and the halt for an instruction that
ends the program. -/
theorem frame_of_assemble {source : String} {p : Program} (h : assemble source = .ok p)
    {m : Machine} (hm : m.program = p) (hrunning : m.halt = none) {i : PlacedInstruction}
    (hcurrent : m.current? = some i) :
    m.step.2 = .ok m.step.1.halt ∧ m.Frame i m.step.1 :=
  Machine.frame_of_step (assemble_wellFormed h) hm hrunning hcurrent

/-- A wide store whose second byte goes to the first cell of the memory, and a return with nowhere
to return to. -/
theorem frame_of_assemble_wrapped :
    ∃ p i j, assemble " LDX #$1234\n STX -1,Y\n RTS\n END" = .ok p ∧
      let m := (Machine.start p).performAll [.step]
      let n := (Machine.start p).performAll [.step, .step]
      m.halt = none ∧ m.current? = some i ∧ n.halt = none ∧ n.current? = some j ∧
      m.Frame i m.step.1 ∧ m.step.1.writes = [(0xFFFF, 0x12), (0x0000, 0x34)] ∧
      n.Frame j n.step.1 ∧ n.step.1.halt.isSome = true := by
  obtain ⟨p, hp, htest⟩ := Except.exists_of_any
    (x := assemble " LDX #$1234\n STX -1,Y\n RTS\n END")
    (q := fun p =>
      let m := (Machine.start p).performAll [.step]
      let n := (Machine.start p).performAll [.step, .step]
      m.halt == none && m.current?.isSome && n.halt == none &&
        n.current?.any (fun j => n.ends j.toCheckedInstruction) &&
        m.step.1.writes == [(0xFFFF, 0x12), (0x0000, 0x34)]) (by decide +kernel)
  simp only [Bool.and_eq_true, beq_iff_eq, Option.any_eq_true, Option.isSome_iff_exists,
    and_assoc] at htest
  obtain ⟨hrunning, ⟨i, hi⟩, hrunning', ⟨j, hj, hends⟩, hwrites⟩ := htest
  obtain ⟨-, hframe⟩ := frame_of_assemble hp
    ((Machine.start p).program_performAll [.step]) hrunning hi
  obtain ⟨-, hframe'⟩ := frame_of_assemble hp
    ((Machine.start p).program_performAll [.step, .step]) hrunning' hj
  exact ⟨p, i, j, hp, hrunning, hi, hrunning', hj, hframe, hwrites, hframe',
    hframe'.halt.mpr hends⟩

end Teach6809
