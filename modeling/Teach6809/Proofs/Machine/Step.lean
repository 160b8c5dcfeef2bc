import Teach6809.Machine.Evaluate
import Teach6809.Proofs.Machine.Flow

/-!
# What a step can do

An instruction never changes the program or the count of steps, and it does not stop the machine:
a halt stays or is lifted (`Machine.Keeps`). One that ends the program leaves everything else as it
was. `Machine.Stepped` lists the five ways a step can go; what is true of every step is proved by
going through them.
-/

namespace Teach6809

/-- Whether an instruction does no more than send control somewhere, or let it go on. -/
def Mnemonic.steers : Mnemonic → Bool
  | .nop | .rts | .swi | .stop | .branch _ | .bsr | .jsr | .jmp => true
  | _ => false

namespace Machine

variable {m after : Machine} {next : Word} {flow : Flow} {i : CheckedInstruction}

/-! ## What instructions keep -/

/-- The program and the count of steps are the same, and the machine is not stopped anew. -/
structure Keeps (m after : Machine) : Prop where
  program : after.program = m.program
  steps : after.steps = m.steps
  halt : after.halt = none ∨ after.halt = m.halt

namespace Keeps

theorem trans {n : Machine} (h : m.Keeps n) (h' : n.Keeps after) : m.Keeps after := by
  refine ⟨h'.program.trans h.program, h'.steps.trans h.steps, ?_⟩
  rcases h'.halt with hnone | hsame
  · exact .inl hnone
  · rw [hsame]
    exact h.halt

/-- Writing the program counter lifts a halt; writing another register does not touch it. -/
theorem set (m : Machine) (r : Register) (value : Word) : m.Keeps (m.set r value) := by
  refine ⟨rfl, rfl, ?_⟩
  show (if r = .pc then none else m.halt) = none ∨ (if r = .pc then none else m.halt) = m.halt
  by_cases hpc : r = .pc
  · exact .inl (if_pos hpc)
  · exact .inr (if_neg hpc)

theorem goto (m : Machine) (address : Word) : m.Keeps (m.goto address) := ⟨rfl, rfl, .inr rfl⟩

end Keeps

/-- An instruction that only sends control somewhere changes nothing but the call stack. -/
theorem exists_callStack_of_execute {instruction : Mnemonic} {operand : Operand}
    (hsteers : instruction.steers = true)
    (h : m.execute instruction operand next = .ok (after, flow)) :
    ∃ callStack, after = { m with callStack } := by
  cases instruction with
  | nop | swi | stop =>
    cases h
    exact ⟨m.callStack, rfl⟩
  | rts =>
    -- An empty stack is left as it is, from any other the topmost address is taken.
    rw [execute] at h
    split at h
    all_goals
      cases h
      exact ⟨_, rfl⟩
  | branch condition =>
    rw [execute] at h
    split at h
    · obtain ⟨target, -, heq⟩ := Except.map_eq_ok.mp h
      cases heq
      exact ⟨m.callStack, rfl⟩
    · cases h
      exact ⟨m.callStack, rfl⟩
  | bsr | jsr | jmp =>
    obtain ⟨target, -, heq⟩ := Except.map_eq_ok.mp h
    cases heq
    exact ⟨_, rfl⟩
  | _ => cases hsteers

/-- Every instruction keeps program, count of steps and halt. -/
theorem execute_keeps (h : m.execute i.mnemonic i.operand next = .ok (after, flow)) :
    m.Keeps after := by
  have hexecuted := executed h
  refine ⟨hexecuted.program, hexecuted.steps, ?_⟩
  rw [hexecuted.halt]
  split
  · exact .inl rfl
  · exact .inr rfl

/-- An instruction that ends the program does nothing else. -/
theorem eq_of_execute_halt {reason : Halt}
    (h : m.execute i.mnemonic i.operand next = .ok (after, .halt reason)) : after = m := by
  have hexecuted := executed h
  exact hexecuted.same (hexecuted.ends.mp ⟨reason, rfl⟩)

/-- An instruction that sends control elsewhere lifts a halt if it moves registers, and leaves it
otherwise. -/
theorem halt_of_execute_jump {address : Word}
    (h : m.execute i.mnemonic i.operand next = .ok (after, .jump address)) :
    after.halt = if i.mnemonic.takesPair then none else m.halt := by
  have hexecuted := executed h
  have htransfers := hexecuted.transfers.mp ⟨address, rfl⟩
  -- Of the instructions that take a pair only those that write the program counter jump.
  have hpc : i.writesPc = i.mnemonic.takesPair := by
    cases hpair : i.mnemonic.takesPair with
    | false => exact writesPc_of_not_takesPair hpair
    | true =>
      unfold transfers at htransfers
      cases hmnemonic : i.mnemonic with
      | tfr | exg =>
        rw [hmnemonic] at htransfers
        exact htransfers
      | _ =>
        rw [hmnemonic] at hpair
        cases hpair
  rw [hexecuted.halt, hpc]

/-! ## The ways of a step -/

/-- The machine after an instruction that was executed, counted and followed. -/
def finish (after : Machine) (i : PlacedInstruction) (flow : Flow) : Machine :=
  ({ after with steps := after.steps + 1 } : Machine).follow i.next flow

/-- The machines and outcomes that a step can lead to. -/
inductive Stepped (m : Machine) : Machine → Outcome → Prop where
  | stopped {reason : Halt} (hhalt : m.halt = some reason) : Stepped m m (.ok (some reason))
  | exhausted (hhalt : m.halt = none) (hcurrent : m.current? = none)
      (hpc : m.pc = UInt16.ofNat m.program.stop) :
      Stepped m { m.ready with halt := some .exhausted } (.ok (some .exhausted))
  | missing (hhalt : m.halt = none) (hcurrent : m.current? = none)
      (hpc : m.pc ≠ UInt16.ofNat m.program.stop) :
      Stepped m m.ready.fault (.error (.unplaced (.noInstruction m.pc)))
  | failed {i : PlacedInstruction} {cause : Cause} (hhalt : m.halt = none)
      (hcurrent : m.current? = some i)
      (hexecute : m.ready.execute i.mnemonic i.operand i.next = .error cause) :
      Stepped m m.ready.fault (.error (.placed cause i.line i.span))
  | executed {i : PlacedInstruction} {after : Machine} {flow : Flow} (hhalt : m.halt = none)
      (hcurrent : m.current? = some i)
      (hexecute : m.ready.execute i.mnemonic i.operand i.next = .ok (after, flow)) :
      Stepped m (after.finish i flow) (.ok (after.finish i flow).halt)

/-- A step ends in one of these ways. -/
theorem stepped (m : Machine) : m.Stepped m.step.1 m.step.2 := by
  cases hhalt : m.halt with
  | some reason =>
    rw [step_of_halted hhalt]
    exact .stopped hhalt
  | none =>
    cases hcurrent : m.current? with
    | none =>
      by_cases hpc : m.pc = UInt16.ofNat m.program.stop
      · rw [step_of_stop hhalt hcurrent hpc]
        exact .exhausted hhalt hcurrent hpc
      · have hstep : m.step = (m.ready.fault, .error (.unplaced (.noInstruction m.pc))) := by
          rw [step_of_running hhalt, hcurrent]
          exact if_neg hpc
        rw [hstep]
        exact .missing hhalt hcurrent hpc
    | some i =>
      cases hexecute : m.ready.execute i.mnemonic i.operand i.next with
      | error cause =>
        have hstep : m.step = (m.ready.fault, .error (.placed cause i.line i.span)) := by
          rw [step_of_running hhalt, hcurrent]
          simp only [hexecute]
        rw [hstep]
        exact .failed hhalt hcurrent hexecute
      | ok result =>
        rw [step_of_execute hhalt hcurrent hexecute]
        exact .executed hhalt hcurrent hexecute

namespace Stepped

variable {outcome : Outcome}

/-- No step changes the program. -/
theorem program (h : m.Stepped after outcome) : after.program = m.program := by
  cases h with
  | executed hhalt hcurrent hexecute =>
    rename_i i after flow
    have hkeeps := (execute_keeps hexecute).program
    cases flow <;> exact hkeeps
  | _ => rfl

/-- A step that answers a halt has left the machine stopped, and one that answers none has not. -/
theorem halt (h : m.Stepped after outcome) {halt : Option Halt} (houtcome : outcome = .ok halt) :
    after.halt = halt := by
  cases h with
  | stopped hhalt =>
    cases houtcome
    exact hhalt
  | exhausted | executed =>
    cases houtcome
    rfl
  | missing | failed => cases houtcome

/-- A step that fails has left the machine stopped, and says where the program or the program
counter is to blame. -/
theorem error (h : m.Stepped after outcome) {problem : Diagnostic}
    (houtcome : outcome = .error problem) :
    after.halt = some .faulted ∧
      (problem.place.isSome = true ∨ problem = .unplaced (.noInstruction m.pc)) := by
  cases h with
  | stopped | exhausted | executed => cases houtcome
  | missing =>
    cases houtcome
    exact ⟨rfl, .inr rfl⟩
  | failed =>
    cases houtcome
    exact ⟨rfl, .inl rfl⟩

/-- A step of a running machine that stops it or fails has stored nothing. -/
theorem writes (h : m.Stepped after outcome) (hrunning : m.halt = none)
    (houtcome : outcome ≠ .ok none) : after.writes = [] := by
  cases h with
  | stopped hhalt =>
    rw [hrunning] at hhalt
    cases hhalt
  | exhausted | missing | failed => rfl
  | executed hhalt hcurrent hexecute =>
    rename_i i after flow
    cases flow with
    | halt reason =>
      rw [eq_of_execute_halt hexecute]
      rfl
    | next | jump =>
      -- Without a halt the instruction has left the machine running.
      refine absurd (congrArg Except.ok ?_) houtcome
      rcases (execute_keeps hexecute).halt with hnone | hsame
      · exact hnone
      · exact hsame.trans hrunning

end Stepped

/-! ## Lines typed by hand -/

/-- Executing a checked instruction by hand keeps program and count. -/
theorem evaluateChecked_keeps (h : m.evaluateChecked i = .ok after) :
    m.Keeps after := by
  unfold evaluateChecked at h
  obtain ⟨⟨executed, flow⟩, hexecute, heq⟩ := Except.map_eq_ok.mp h
  have hkeeps := execute_keeps hexecute
  cases flow with
  | halt reason =>
    cases heq
    exact hkeeps
  | next | jump =>
    cases heq
    exact hkeeps.trans (.goto _ _)

/-- A line typed by hand keeps what an instruction keeps, also if it is refused. -/
theorem evaluate_keeps (m : Machine) (source : String) : m.Keeps (m.evaluate source).1 := by
  have hready : m.Keeps m.ready := ⟨rfl, rfl, .inr rfl⟩
  unfold evaluate
  dsimp only
  split
  · exact hready
  · split
    · exact hready
    · rename_i hevaluate
      exact hready.trans (evaluateChecked_keeps hevaluate)

end Machine
end Teach6809
