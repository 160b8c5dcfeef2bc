import Teach6809.Proofs.Assembly.WellFormed
import Teach6809.Proofs.Machine.Action

/-!
# Where execution can fail

Checking an instruction leaves nothing for execution to complain about: the operand has the shape
that the opcode map asks for, and a label is one that the program declares (`Machine.execute_ok`).
So a machine with an assembled program fails in one way only, with a program counter at which no
instruction starts. Main statement: this is so in every state that the machine can be brought into,
and an instruction typed by hand cannot fail at all once it has been read.
-/

namespace Teach6809

/-! ## Targets -/

/-- A jump or call takes a label or an address in memory. -/
theorem Mnemonic.mode_of_jump {m : Mnemonic} {mode : AddressingMode} {o : Opcode}
    (hm : m = .jsr ∨ m = .jmp) (h : m.opcode? mode = some o) :
    mode = .relative ∨ mode.row?.isSome = true ∧ mode ≠ .immediate := by
  rcases hm with rfl | rfl
  all_goals
    cases mode with
    | relative => exact .inl rfl
    | direct | extended | indexed => exact .inr ⟨rfl, by decide⟩
    | _ => cases h

namespace Machine

variable {operand : Operand}

/-- A jump has a target if its label, should it have one, is declared. -/
theorem target_ok (m : Machine)
    (hmode : operand.mode = .relative ∨ operand.mode.row?.isSome = true ∧ operand.mode ≠ .immediate)
    (hdeclares : ∀ name, operand = .label name → m.program.labels.declares name = true) :
    ∃ address, m.target operand = .ok address := by
  rcases hmode with hrelative | ⟨hrow, himmediate⟩
  · obtain ⟨name, rfl⟩ := Operand.label_of_mode hrelative
    obtain ⟨address, haddress⟩ := Program.labelTarget?_of_declares (hdeclares name rfl)
    exact ⟨address, by simp only [target, haddress]⟩
  · obtain ⟨address, haddress⟩ := m.address_ok hrow himmediate
    refine ⟨address, ?_⟩
    unfold target
    split
    · cases hrow
    · exact haddress

/-! ## Instructions -/

/-- A checked instruction can be executed. -/
theorem execute_ok (m : Machine) {i : CheckedInstruction} (hi : i.Sound m.program.labels)
    (next : Word) : ∃ after flow, m.execute i.mnemonic i.operand next = .ok (after, flow) := by
  have hopcode := hi.opcode
  rw [← hi.mode] at hopcode
  -- Instructions that keep control are dealt with together, the others by what they aim at.
  cases hmnemonic : i.mnemonic with
  | branch condition =>
    rw [hmnemonic] at hopcode
    obtain ⟨address, haddress⟩ := m.target_ok (.inl (Mnemonic.mode_of_only hopcode)) hi.declares
    rw [execute, haddress]
    split <;> exact ⟨_, _, rfl⟩
  | bsr =>
    rw [hmnemonic] at hopcode
    obtain ⟨address, haddress⟩ := m.target_ok (.inl (Mnemonic.mode_of_only hopcode)) hi.declares
    rw [execute, haddress]
    exact ⟨_, _, rfl⟩
  | jsr =>
    rw [hmnemonic] at hopcode
    obtain ⟨address, haddress⟩ :=
      m.target_ok (Mnemonic.mode_of_jump (.inl rfl) hopcode) hi.declares
    rw [execute, haddress]
    exact ⟨_, _, rfl⟩
  | jmp =>
    rw [hmnemonic] at hopcode
    obtain ⟨address, haddress⟩ :=
      m.target_ok (Mnemonic.mode_of_jump (.inr rfl) hopcode) hi.declares
    rw [execute, haddress]
    exact ⟨_, _, rfl⟩
  | rts =>
    rw [execute]
    split <;> exact ⟨_, _, rfl⟩
  | swi | stop => exact ⟨_, _, rfl⟩
  | tfr | exg =>
    rw [hmnemonic] at hopcode
    obtain ⟨left, right, hpair⟩ := Operand.pair_of_mode (Mnemonic.mode_of_only hopcode)
    rw [hpair]
    exact ⟨_, _, rfl⟩
  | _ =>
    have hfalls : i.mnemonic.fallsThrough = true := by rw [hmnemonic]; rfl
    have hkeeps : i.keepsToLabels = true := by
      unfold CheckedInstruction.keepsToLabels
      rw [hmnemonic]
    obtain ⟨after, hafter, -⟩ := m.execute_of_fallsThrough hi hfalls hkeeps next
    rw [hmnemonic] at hafter
    exact ⟨after, .next, hafter⟩

/-! ## Steps -/

variable {p : Program} {m : Machine}

/-- The instruction at the program counter is one of the program. -/
theorem mem_of_current? (hp : p.WellFormed) (hm : m.program = p) {i : PlacedInstruction}
    (hcurrent : m.current? = some i) : i ∈ p.lines := by
  rw [current?, hm, hp.laid.at?_eq_some_iff] at hcurrent
  exact hcurrent.1

/-- An instruction of the program can be executed wherever the machine stands. -/
theorem execute_current_ok (hp : p.WellFormed) (hm : m.program = p) {i : PlacedInstruction}
    (hcurrent : m.current? = some i) :
    ∃ after flow, m.ready.execute i.mnemonic i.operand i.next = .ok (after, flow) := by
  have hsound := hp.sound i (mem_of_current? hp hm hcurrent)
  rw [← hm] at hsound
  exact m.ready.execute_ok hsound i.next

/-- A step fails exactly if there is nothing to execute and the program has not come to its end. -/
theorem step_eq_error_iff (hp : p.WellFormed) (hm : m.program = p) {problem : Diagnostic} :
    m.step.2 = .error problem ↔
      m.halt = none ∧ m.current? = none ∧ m.pc ≠ UInt16.ofNat p.stop ∧
        problem = .unplaced (.noInstruction m.pc) := by
  have hstepped := m.stepped
  generalize m.step.1 = after at hstepped
  generalize m.step.2 = outcome at hstepped
  constructor
  · rintro rfl
    cases hstepped with
    | missing hhalt hcurrent hpc =>
      rw [hm] at hpc
      exact ⟨hhalt, hcurrent, hpc, rfl⟩
    | failed hhalt hcurrent hexecute =>
      -- This does not happen: what was checked when it was assembled can be executed.
      obtain ⟨after, flow, hok⟩ := execute_current_ok hp hm hcurrent
      rw [hok] at hexecute
      cases hexecute
  · rintro ⟨hnone, hnowhere, hother, rfl⟩
    cases hstepped with
    | stopped hhalt =>
      rw [hnone] at hhalt
      cases hhalt
    | exhausted hhalt hcurrent hpc =>
      rw [hm] at hpc
      exact absurd hpc hother
    | missing => rfl
    | failed hhalt hcurrent | executed hhalt hcurrent =>
      rw [hnowhere] at hcurrent
      cases hcurrent

/-- The machine stands at no instruction of its program. -/
theorem current?_eq_none_iff (hm : m.program = p) :
    m.current? = none ↔ ∀ i ∈ p.lines, i.address ≠ m.pc := by
  unfold current? Program.at?
  rw [hm, List.find?_eq_none]
  simp only [beq_iff_eq, ne_eq]

/-- The end of a program is compared with as an address, so an end of `$10000` is zero. -/
theorem pc_ne_stop_iff (m : Machine) (stop : Nat) :
    m.pc ≠ UInt16.ofNat stop ↔ m.pc.toNat ≠ stop % 0x10000 := by
  rw [ne_eq, ← UInt16.toNat_inj, UInt16.toNat_ofNat']

/-! ## Lines typed by hand -/

/-- A line that was read is checked against the labels of the program. -/
theorem sound_of_readTyped {labels : LabelTable} {line : String} {i : CheckedInstruction}
    (h : readTyped labels line = .ok i) : i.Sound labels := by
  unfold readTyped at h
  obtain ⟨read, -, h⟩ := Except.bind_eq_ok.mp h
  split at h
  · cases h
  · split at h
    · cases h
    · rename_i instruction _
      cases hcheck : instruction.check labels with
      | error cause =>
        rw [hcheck] at h
        cases h
      | ok checked =>
        rw [hcheck] at h
        cases h
        exact CheckedInstruction.sound_of_check hcheck

/-- A line that was read is executed. -/
theorem evaluate_of_readTyped (m : Machine) {line : String} {i : CheckedInstruction}
    (h : readTyped m.program.labels line = .ok i) :
    ∃ after, m.ready.evaluateChecked i = .ok after ∧ m.evaluate line = (after, .ok after.halt) := by
  obtain ⟨executed, flow, hexecute⟩ := m.ready.execute_ok (sound_of_readTyped h) m.ready.pc
  have hchecked : ∃ after, m.ready.evaluateChecked i = .ok after := by
    unfold evaluateChecked
    rw [hexecute]
    exact ⟨_, rfl⟩
  obtain ⟨after, hafter⟩ := hchecked
  refine ⟨after, hafter, ?_⟩
  have hfresh : ({ m with writes := [] } : Machine).evaluateChecked i = .ok after := hafter
  simp only [evaluate, h, hfresh]

end Machine

/-! ## Assembled programs -/

/-- Whatever was done to a machine with an assembled program, its next step fails exactly if the
machine is not stopped and its program counter is neither the start of an instruction nor the end of
the program, and then it says so. No instruction of the program fails, and none typed by hand that
has been read. -/
theorem fault_of_assemble {source : String} {p : Program} (h : assemble source = .ok p)
    (actions : List Machine.Action) :
    let m := (Machine.start p).performAll actions
    ((∃ problem, m.step.2 = .error problem) ↔
      m.halt = none ∧ (∀ i ∈ p.lines, i.address ≠ m.pc) ∧ m.pc.toNat ≠ p.stop % 0x10000) ∧
    (∀ problem, m.step.2 = .error problem →
      problem = .unplaced (.noInstruction m.pc) ∧ problem.cause.kind = .badAddress) ∧
    (∀ i, m.current? = some i →
      ∃ after flow, m.ready.execute i.mnemonic i.operand i.next = .ok (after, flow)) ∧
    ∀ line i, Machine.readTyped p.labels line = .ok i →
      ∃ after, m.ready.evaluateChecked i = .ok after ∧
        m.evaluate line = (after, .ok after.halt) := by
  intro m
  have hp := assemble_wellFormed h
  have hm : m.program = p := (Machine.start p).program_performAll actions
  refine ⟨?_, ?_, fun i hi => Machine.execute_current_ok hp hm hi, ?_⟩
  · -- No instruction at the program counter, and not the end either: two facts about addresses.
    rw [← Machine.current?_eq_none_iff hm, ← m.pc_ne_stop_iff p.stop]
    constructor
    · rintro ⟨problem, hproblem⟩
      obtain ⟨hhalt, hcurrent, hpc, -⟩ := (Machine.step_eq_error_iff hp hm).mp hproblem
      exact ⟨hhalt, hcurrent, hpc⟩
    · rintro ⟨hhalt, hcurrent, hpc⟩
      exact ⟨_, (Machine.step_eq_error_iff hp hm).mpr ⟨hhalt, hcurrent, hpc, rfl⟩⟩
  · intro problem hproblem
    obtain ⟨-, -, -, rfl⟩ := (Machine.step_eq_error_iff hp hm).mp hproblem
    exact ⟨rfl, rfl⟩
  · intro line i hi
    rw [← hm] at hi
    exact m.evaluate_of_readTyped hi

/-- A call into the middle of an instruction, after a run that was cut short and a line typed by
hand. A jump typed by hand is still executed. -/
theorem fault_of_assemble_middle :
    ∃ p, assemble "START: LDA #$10\n JSR $FE01\n END" = .ok p ∧
      let m := (Machine.start p).performAll
        [.runUntil 1 fun _ _ => false, .evaluate "STA $20", .poke 0x20 0x7F, .step]
      m.pc = 0xFE01 ∧ m.data.read 0x20 = 0x7F ∧
      m.step.2 = .error (.unplaced (.noInstruction 0xFE01)) ∧
      ∃ i after, Machine.readTyped p.labels "JMP START" = .ok i ∧
        m.evaluate "JMP START" = (after, .ok after.halt) := by
  obtain ⟨p, hp, htest⟩ := Except.exists_of_any
    (x := assemble "START: LDA #$10\n JSR $FE01\n END")
    (q := fun p =>
      let m := (Machine.start p).performAll
        [.runUntil 1 fun _ _ => false, .evaluate "STA $20", .poke 0x20 0x7F, .step]
      m.pc == 0xFE01 && m.data.read 0x20 == 0x7F && m.halt == none &&
        p.lines.all (fun i => i.address != 0xFE01) && p.stop % 0x10000 != 0xFE01 &&
        (Machine.readTyped p.labels "JMP START").toOption.any fun _ => true) (by decide +kernel)
  simp only [Bool.and_eq_true, beq_iff_eq, bne_iff_ne, List.all_eq_true] at htest
  obtain ⟨⟨⟨⟨⟨hpc, hdata⟩, hhalt⟩, hnowhere⟩, hstop⟩, hread⟩ := htest
  obtain ⟨hfails, hproblem, -, htyped⟩ := fault_of_assemble hp
    [.runUntil 1 fun _ _ => false, .evaluate "STA $20", .poke 0x20 0x7F, .step]
  rw [hpc] at hfails hproblem
  obtain ⟨problem, hstep⟩ := hfails.mpr ⟨hhalt, hnowhere, hstop.symm⟩
  obtain ⟨i, hi, -⟩ := Except.exists_of_any hread
  obtain ⟨after, -, hafter⟩ := htyped _ i hi
  refine ⟨p, hp, hpc, hdata, ?_, i, after, hi, hafter⟩
  rw [hstep, (hproblem problem hstep).1]

end Teach6809
