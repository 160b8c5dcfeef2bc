import Teach6809.Proofs.Simulator.Consistent

/-!
# Going on elsewhere

Two ways lead to another place of the program: writing the program counter, and typing an
instruction that sends control there. The first is an action of the simulator and starts a halted
one again; the second changes the machine behind the simulator. So the two agree as long as the
simulator is not halted, and a halted one stays halted whatever is typed, also when the machine
itself could go on.
-/

namespace Teach6809

/-- A line typed by hand is an instruction that sends control to an address. `executed` is the
machine after all that the instruction does but going there. -/
structure Machine.SentBy (m : Machine) (line : String) (i : CheckedInstruction)
    (executed : Machine) (address : Word) : Prop where
  read : readTyped m.program.labels line = .ok i
  execute : m.ready.execute i.mnemonic i.operand m.pc = .ok (executed, .jump address)

/-- The machine with the program counter and the halt of another one. -/
def Machine.withControlOf (m other : Machine) : Machine :=
  { m with registers := { m.registers with pc := other.pc }, halt := other.halt }

namespace Simulator

/-- The simulator after a line typed by hand. -/
def typed (s : Simulator) (line : String) : Simulator := (s.evaluate line).1

/-- The simulator after an instruction of which the transfer of control is left out, and the program
counter written instead. `executed` is the machine after the instruction, `m` the one before. -/
def moved (s : Simulator) (m executed : Machine) (address : Word) : Simulator :=
  ({ s with machine := some (executed.withControlOf m) }.setRegister .pc address).simulator

variable {s : Simulator} {m executed : Machine} {line : String} {i : CheckedInstruction}
  {address : Word}

/-- Such a line is executed, and control goes to the address. -/
theorem evaluate_of_sentBy (h : m.SentBy line i executed address) :
    m.evaluate line = (executed.goto address, .ok executed.halt) := by
  have hchecked : ({ m with writes := [] } : Machine).evaluateChecked i =
      .ok (executed.goto address) := by
    show (m.ready.execute i.mnemonic i.operand m.pc).map _ = _
    rw [h.execute]
    rfl
  simp only [Machine.evaluate, h.read, hchecked]
  rfl

/-- The simulator takes over the machine and keeps its status. -/
theorem typed_of_sentBy (hm : s.machine = some m) (h : m.SentBy line i executed address) :
    s.typed line = { s with machine := some (executed.goto address) } := by
  rw [typed, evaluate, hm]
  simp only [evaluate_of_sentBy h]

/-- Writing the program counter gives a machine that can go on, in a simulator not halted. -/
theorem moved_eq (s : Simulator) (m executed : Machine) (address : Word) :
    s.moved m executed address =
      { s with
        machine := some { executed.goto address with halt := none }
        status := if s.status = .halted then .running else s.status } := by
  unfold moved setRegister
  simp only [true_and]
  rfl

/-- Whatever was done to a simulator, an instruction typed by hand that sends control elsewhere has
its effects on the machine. If the simulator is not halted, it is left as by writing the program
counter. If it is halted, the next step does nothing at all, whether or not the machine is stopped,
while after writing the program counter it is a step of the machine from the new address. -/
theorem resume_of_actions (settings : Settings) (actions : List Action) (m executed : Machine)
    (line : String) (i : CheckedInstruction) (address : Word)
    (hm : (reached settings actions).machine = some m) (h : m.SentBy line i executed address) :
    let s := reached settings actions
    let t := s.typed line
    let u := s.moved m executed address
    let resumed : Machine := { executed.goto address with halt := none }
    (t.machine = some (executed.goto address) ∧
      executed.halt = if i.mnemonic.takesPair then none else m.halt) ∧
    (s.status ≠ .halted → t = u ∧ t.step = u.step) ∧
    (s.status = .halted →
      t.status = .halted ∧ t.step = t.silent (.ok t.snapshot) ∧ u.status = .running ∧
        u.step = u.settle resumed.step.1 resumed.step.2 resumed.step.1.writes
          resumed.starting?.toList) := by
  intro s t u resumed
  have hs : s.Consistent := consistent_reached settings actions
  have ht : t = { s with machine := some (executed.goto address) } := typed_of_sentBy hm h
  have hu : u = { s with
      machine := some resumed
      status := if s.status = .halted then .running else s.status } :=
    moved_eq s m executed address
  have hhalt : executed.halt = if i.mnemonic.takesPair then none else m.halt :=
    Machine.halt_of_execute_jump (m := m.ready) h.execute
  refine ⟨⟨by rw [ht], hhalt⟩, fun hstatus => ?_, fun hstatus => ?_⟩
  · -- The machine was not stopped, so there is no halt that writing the program counter could lift.
    have hrunning : m.halt = none := hs.halt_of_status hm hstatus
    have hresumed : resumed = executed.goto address := by
      have hnone : executed.halt = none := by
        rw [hhalt, hrunning, ite_self]
      show ({ executed.goto address with halt := none } : Machine) = executed.goto address
      rw [← hnone]
      rfl
    have hsame : t = u := by
      rw [ht, hu, hresumed, if_neg hstatus]
    exact ⟨hsame, by rw [hsame]⟩
  · -- A line that is typed does not wake a halted simulator, writing the program counter does.
    have htyped : t.status = .halted := by
      rw [ht]
      exact hstatus
    have hmoved : u.status = .running := by
      rw [hu]
      exact if_pos hstatus
    refine ⟨htyped, step_of_halted (m := executed.goto address) (by rw [ht]) htyped, hmoved, ?_⟩
    apply step_of_machine
    · rw [hu]
    · rw [hmoved]
      decide

/-- A call typed while a program runs, with its return address on the stack. -/
theorem resume_of_actions_call :
    let s := reached .default [.load "SUB: INCA\n RTS\n END", .assemble, .step]
    let i : CheckedInstruction := ⟨⟨.bsr, some "SUB"⟩, ⟨false, 0x8D⟩, .label "SUB"⟩
    let m := s.machine.getD (Machine.start ⟨.empty, 0, []⟩)
    let executed : Machine := { m with callStack := [0xFE01] }
    s.machine = some m ∧ m.SentBy "BSR SUB" i executed 0xFE00 ∧
      s.typed "BSR SUB" = s.moved m executed 0xFE00 ∧
      (s.typed "BSR SUB").step = (s.moved m executed 0xFE00).step := by
  intro s i m executed
  have hm : s.machine = some m := by decide +kernel
  have hsent : m.SentBy "BSR SUB" i executed 0xFE00 :=
    ⟨Except.toOption_eq_some.mp (by decide +kernel), Except.toOption_eq_some.mp (by decide +kernel)⟩
  obtain ⟨-, hgoing, -⟩ := resume_of_actions .default
    [.load "SUB: INCA\n RTS\n END", .assemble, .step] m executed "BSR SUB" i 0xFE00 hm hsent
  exact ⟨hm, hsent, hgoing (by decide +kernel)⟩

/-- A program that ran to its end. Writing the program counter and stepping executes `INCA` once
more; moving a register there or jumping there leaves the simulator halted, so the step does
nothing, although after the first the machine is not stopped. -/
theorem resume_of_actions_halted :
    let s := reached .default [.load "START: INCA\n END", .run, .setRegister .x 0xFE00]
    (s.setRegister .pc 0xFE00).simulator.step.simulator.steps = 3 ∧
    (s.typed "TFR X,PC").machine.map (fun m => (m.pc, m.halt)) = some (0xFE00, none) ∧
    (s.typed "TFR X,PC").step.simulator.steps = 2 ∧
    (s.typed "JMP START").machine.map (fun m => m.pc) = some 0xFE00 ∧
    (s.typed "JMP START").step.simulator.steps = 2 := by
  decide +kernel

end Simulator
end Teach6809
