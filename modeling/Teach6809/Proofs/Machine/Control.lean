import Teach6809.Proofs.Machine.Execute
import Teach6809.Proofs.Program.Search

/-!
# Programs run line by line

`Control` is how a reader of the source text follows a program: instructions have numbers instead of
addresses, and a label leads to the first instruction on or below its line. As long as control is
sent to labels only (`Program.keepsToLabels`), the machine does exactly this: its program counter
and its return addresses are the addresses of the numbers (`Machine.Follows`). Main statement: this
holds after any number of steps of an assembled program, which therefore never faults.
-/

namespace Teach6809

/-! ## Control at the level of the source -/

/-- Where a program stands: the number of the instruction to execute next, which is the number of
all instructions past the last one; the numbers to return to, the latest first; and why the program
has stopped, if it has. -/
structure Control where
  index : Nat
  returns : List Nat
  halt : Option Halt
deriving DecidableEq

/-- The number of the first instruction on or below the line that declares a label, or the number of
all instructions if there is none. -/
def Program.destination? (p : Program) (name : String) : Option Nat :=
  (p.labels.line? name).map fun line => p.lines.findIdx fun i => line ≤ i.line

/-- Whether every instruction sends control to labels only. -/
def Program.keepsToLabels (p : Program) : Bool := p.lines.all fun i => i.keepsToLabels

namespace Control

/-- At the first instruction, with nowhere to return to. -/
def start : Control := { index := 0, returns := [], halt := none }

/-- Sends control to a label. -/
def goto? (p : Program) (c : Control) : Operand → Option Control
  | .label name => (p.destination? name).map fun k => { c with index := k }
  | _ => none

/-- Executes an instruction as far as control goes. The flags say which branches are taken. -/
def execute? (p : Program) (flags : Flags) (c : Control) (i : PlacedInstruction) : Option Control :=
  match i.mnemonic with
  | .branch condition =>
    if condition.holds flags then c.goto? p i.operand
    else some { c with index := c.index + 1 }
  | .jmp => c.goto? p i.operand
  | .bsr | .jsr =>
    let called := { c with returns := (c.index + 1) :: c.returns }
    called.goto? p i.operand
  | .rts =>
    match c.returns with
    | k :: rest => some { c with index := k, returns := rest }
    | [] => some { c with halt := some .returned }
  | .swi => some { c with halt := some .interrupted }
  | .stop => some { c with halt := some .finished }
  | _ => some { c with index := c.index + 1 }

/-- One step: a program that has stopped stays as it is, and past the last instruction it stops. -/
def step? (p : Program) (flags : Flags) (c : Control) : Option Control :=
  match c.halt with
  | some _ => some c
  | none =>
    match p.lines[c.index]? with
    | none => some { c with halt := some .exhausted }
    | some i => c.execute? p flags i

/-- Control after a number of steps, with the flags that each step finds. -/
def after? (p : Program) (flags : Nat → Flags) : Nat → Option Control
  | 0 => some start
  | n + 1 => (after? p flags n).bind (step? p (flags n))

end Control

/-- Instructions that only compute move control to the next number. -/
theorem Control.execute?_of_fallsThrough {p : Program} {flags : Flags} {c : Control}
    {i : PlacedInstruction} (hfalls : i.mnemonic.fallsThrough = true) :
    c.execute? p flags i = some { c with index := c.index + 1 } := by
  unfold execute?
  cases hmnemonic : i.mnemonic with
  | branch condition | bsr | jsr | jmp | rts | swi | stop =>
    rw [hmnemonic] at hfalls
    cases hfalls
  | _ => rfl

namespace Machine

/-- The machine after a number of steps. -/
def after (m : Machine) : Nat → Machine
  | 0 => m
  | n + 1 => (m.after n).step.1

/-- The machine stands where control says: numbers are numbers of instructions or of the end, and
the addresses of the machine are the addresses of the numbers. -/
structure Follows (p : Program) (c : Control) (m : Machine) : Prop where
  program : m.program = p
  index_le : c.index ≤ p.lines.length
  returns_le : ∀ k ∈ c.returns, k ≤ p.lines.length
  pc : m.pc = p.addressOf c.index
  callStack : m.callStack = c.returns.map p.addressOf
  halt : m.halt = c.halt
  sound : m.halt ≠ some .faulted

end Machine

/-! ## Labels -/

namespace Program

variable {p : Program} {i : PlacedInstruction}

/-- A label that an instruction names leads to a number, and the machine finds its address. -/
theorem WellFormed.destination?_of_label (hp : p.WellFormed) (hi : i ∈ p.lines) {name : String}
    (hlabel : i.operand = .label name) :
    ∃ k, p.destination? name = some k ∧ k ≤ p.lines.length ∧
      p.labelTarget? name = some (p.addressOf k) := by
  have hdeclares := (hp.sound i hi).declares name hlabel
  obtain ⟨line, hline⟩ := Option.isSome_iff_exists.mp hdeclares
  refine ⟨p.indexFromLine line, ?_, p.indexFromLine_le line, ?_⟩
  · rw [destination?, hline, p.indexFromLine_eq_findIdx]
    rfl
  · rw [hp.laid.labelTarget?_eq, hline]
    rfl

/-- Branches, calls and jumps of a program that keeps to labels have labels. -/
theorem WellFormed.label_of_transfer (hp : p.WellFormed) (hlabels : p.keepsToLabels = true)
    (hi : i ∈ p.lines)
    (htransfer : (∃ condition, i.mnemonic = .branch condition) ∨ i.mnemonic = .bsr ∨
      i.mnemonic = .jsr ∨ i.mnemonic = .jmp) :
    ∃ name, i.operand = .label name := by
  have hsound := hp.sound i hi
  have hopcode := hsound.opcode
  have hkeeps : i.keepsToLabels = true := List.all_eq_true.mp hlabels i hi
  unfold CheckedInstruction.keepsToLabels at hkeeps
  rw [← hsound.mode] at hopcode
  rcases htransfer with ⟨condition, hmnemonic⟩ | hmnemonic | hmnemonic | hmnemonic
  · rw [hmnemonic] at hopcode
    exact Operand.label_of_mode (Mnemonic.mode_of_only hopcode)
  · rw [hmnemonic] at hopcode
    exact Operand.label_of_mode (Mnemonic.mode_of_only hopcode)
  -- A jump or call could also have an address; only the assumption on the program excludes it.
  all_goals
    rw [hmnemonic] at hkeeps
    cases hoperand : i.operand with
    | label name => exact ⟨name, rfl⟩
    | _ =>
      rw [hoperand] at hkeeps
      cases hkeeps

end Program

/-! ## One step -/

namespace Machine

variable {p : Program} {c : Control} {m after : Machine} {i : PlacedInstruction}

namespace Follows

theorem start (hp : p.WellFormed) : (Machine.start p).Follows p .start where
  program := rfl
  index_le := Nat.zero_le _
  returns_le := fun k hk => absurd hk List.not_mem_nil
  pc := by
    show origin = p.addressOf 0
    rw [hp.laid.addressOf_eq (Nat.zero_le _), Program.position_zero, UInt16.ofNat_toNat]
  callStack := rfl
  halt := rfl
  sound := fun h => nomatch h

/-- The instruction at the program counter is the one with the index that control has. -/
theorem current?_eq (h : m.Follows p c) (hp : p.WellFormed) (hi : p.lines[c.index]? = some i) :
    m.current? = some i := by
  rw [current?, h.program, h.pc, hp.laid.at?_addressOf, hi]

/-- Past the last instruction the machine stands at the end of the program. -/
theorem pc_of_none (h : m.Follows p c) (hi : p.lines[c.index]? = none) :
    m.pc = UInt16.ofNat p.stop := by
  rw [h.pc, Program.addressOf, hi]

/-- Going on to the next address is going on to the next number. -/
theorem follow_next (hp : p.WellFormed) (hi : p.lines[c.index]? = some i) (n : Machine) :
    n.follow i.next .next = n.goto (p.addressOf (c.index + 1)) := by
  rw [← hp.laid.next_eq hi]
  rfl

/-- Control goes on at a number after an instruction that has left the machine running. -/
theorem goto {k : Nat} {returns : List Nat} (hprogram : after.program = p)
    (hk : k ≤ p.lines.length) (hreturns : ∀ j ∈ returns, j ≤ p.lines.length)
    (hstack : after.callStack = returns.map p.addressOf) (hhalt : after.halt = none) :
    (after.goto (p.addressOf k)).Follows p { index := k, returns, halt := none } where
  program := hprogram
  index_le := hk
  returns_le := hreturns
  pc := rfl
  callStack := hstack
  halt := hhalt
  sound := fun h => nomatch hhalt.symm.trans h

/-- The machine stops where it stands. -/
theorem stop (h : m.Follows p c) {reason : Halt} (hreason : reason ≠ .faulted)
    (hprogram : after.program = m.program) (hpc : after.pc = m.pc)
    (hstack : after.callStack = m.callStack) (hhalt : after.halt = some reason) :
    after.Follows p { c with halt := some reason } where
  program := hprogram.trans h.program
  index_le := h.index_le
  returns_le := h.returns_le
  pc := hpc.trans h.pc
  callStack := hstack.trans h.callStack
  halt := hhalt
  sound := fun hfaulted => hreason (Option.some.inj (hhalt.symm.trans hfaulted))

end Follows

/-- One step of the machine and of control lead to the same place, without an error. -/
def StepFollows (p : Program) (c : Control) (m : Machine) : Prop :=
  ∃ c', c.step? p m.flags = some c' ∧ m.step.1.Follows p c' ∧ m.step.2 = .ok c'.halt

namespace Follows

variable (hp : p.WellFormed) (h : m.Follows p c) (hhalt : c.halt = none)
  (hi : p.lines[c.index]? = some i)

include hp h hhalt hi

/-- An instruction that sends control to a number does so in the machine and in the source. -/
theorem step_goto {flow : Flow} {k : Nat} {returns : List Nat}
    (hexecute : m.ready.execute i.mnemonic i.operand i.next = .ok (after, flow))
    (hflow : ∀ n : Machine, n.follow i.next flow = n.goto (p.addressOf k))
    (hafter : after.program = m.program ∧ after.callStack = returns.map p.addressOf ∧
      after.halt = m.halt)
    (hk : k ≤ p.lines.length) (hreturns : ∀ j ∈ returns, j ≤ p.lines.length)
    (hcontrol : c.execute? p m.flags i = some { index := k, returns, halt := none }) :
    StepFollows p c m := by
  have hrunning : m.halt = none := h.halt.trans hhalt
  have hstep := step_of_execute hrunning (h.current?_eq hp hi) hexecute
  rw [hflow] at hstep
  obtain ⟨hprogram, hstack, hsame⟩ := hafter
  refine ⟨{ index := k, returns, halt := none }, ?_, ?_, ?_⟩
  · simp only [Control.step?, hhalt, hi, hcontrol]
  · rw [hstep]
    exact Follows.goto (hprogram.trans h.program) hk hreturns hstack (hsame.trans hrunning)
  · rw [hstep]
    exact congrArg Except.ok (hsame.trans hrunning)

/-- An instruction that stops the program does so in the machine and in the source. -/
theorem step_stop {reason : Halt} (hreason : reason ≠ .faulted)
    (hexecute : m.ready.execute i.mnemonic i.operand i.next = .ok (m.ready, .halt reason))
    (hcontrol : c.execute? p m.flags i = some { c with halt := some reason }) :
    StepFollows p c m := by
  have hstep := step_of_execute (h.halt.trans hhalt) (h.current?_eq hp hi) hexecute
  refine ⟨{ c with halt := some reason }, ?_, ?_, ?_⟩
  · simp only [Control.step?, hhalt, hi, hcontrol]
  · rw [hstep]
    exact h.stop hreason rfl rfl rfl rfl
  · rw [hstep]
    rfl

/-- An instruction that falls through moves both on by one. -/
theorem step_fallsThrough (hlabels : p.keepsToLabels = true)
    (hfalls : i.mnemonic.fallsThrough = true) : StepFollows p c m := by
  have hmem := List.mem_of_getElem? hi
  obtain ⟨after, hexecute, hsame⟩ := m.ready.execute_of_fallsThrough
    (hp.sound i hmem) hfalls (List.all_eq_true.mp hlabels i hmem) i.next
  refine h.step_goto hp hhalt hi hexecute (follow_next hp hi)
    ⟨hsame.program, hsame.callStack.trans h.callStack, hsame.halt⟩ (Program.length_of_getElem? hi)
    h.returns_le ?_
  rw [Control.execute?_of_fallsThrough hfalls, hhalt]

/-- Control that is sent to a label goes to the same place in the machine and in the source. -/
theorem step_to_label {name : String} {returns : List Nat} (hlabel : i.operand = .label name)
    (hexecute : ∀ target, m.ready.target i.operand = .ok target →
      m.ready.execute i.mnemonic i.operand i.next = .ok (after, .jump target))
    (hafter : after.program = m.program ∧ after.callStack = returns.map p.addressOf ∧
      after.halt = m.halt)
    (hreturns : ∀ j ∈ returns, j ≤ p.lines.length)
    (hcontrol : c.execute? p m.flags i = Control.goto? p { c with returns } i.operand) :
    StepFollows p c m := by
  obtain ⟨k, hk, hle, htarget⟩ := hp.destination?_of_label (List.mem_of_getElem? hi) hlabel
  refine h.step_goto hp hhalt hi (hexecute (p.addressOf k) ?_) (fun n => rfl) hafter hle hreturns ?_
  · have hprogram : m.ready.program = p := h.program
    simp only [hlabel, target, hprogram, htarget]
  · rw [hcontrol, hlabel, Control.goto?, hk, hhalt]
    rfl

/-- A branch goes to the index of its label if its condition is met. -/
theorem step_branch {condition : Condition} (hlabels : p.keepsToLabels = true)
    (hmnemonic : i.mnemonic = .branch condition) : StepFollows p c m := by
  obtain ⟨name, hlabel⟩ := hp.label_of_transfer hlabels (List.mem_of_getElem? hi)
    (.inl ⟨condition, hmnemonic⟩)
  -- Taken, the branch leads to the label; else the next instruction is one further on both sides.
  by_cases htaken : condition.holds m.flags = true
  · have hcontrol : c.execute? p m.flags i = c.goto? p i.operand := by
      rw [Control.execute?, hmnemonic]
      exact if_pos htaken
    have hexecute : ∀ target, m.ready.target i.operand = .ok target →
        m.ready.execute i.mnemonic i.operand i.next = .ok (m.ready, .jump target) := by
      intro target htarget
      rw [hmnemonic, execute, htarget]
      exact if_pos htaken
    exact h.step_to_label hp hhalt hi hlabel hexecute ⟨rfl, h.callStack, rfl⟩ h.returns_le hcontrol
  · have hexecute : m.ready.execute i.mnemonic i.operand i.next = .ok (m.ready, .next) := by
      rw [hmnemonic, execute]
      exact if_neg htaken
    have hcontrol : c.execute? p m.flags i = some { c with index := c.index + 1 } := by
      rw [Control.execute?, hmnemonic]
      exact if_neg htaken
    rw [hhalt] at hcontrol
    exact h.step_goto hp hhalt hi hexecute (follow_next hp hi) ⟨rfl, h.callStack, rfl⟩
      (Program.length_of_getElem? hi) h.returns_le hcontrol

/-- A jump goes to the index of its label. -/
theorem step_jump (hlabels : p.keepsToLabels = true) (hmnemonic : i.mnemonic = .jmp) :
    StepFollows p c m := by
  obtain ⟨name, hlabel⟩ := hp.label_of_transfer hlabels (List.mem_of_getElem? hi)
    (.inr (.inr (.inr hmnemonic)))
  have hcontrol : c.execute? p m.flags i = c.goto? p i.operand := by
    rw [Control.execute?, hmnemonic]
  have hexecute : ∀ target, m.ready.target i.operand = .ok target →
      m.ready.execute i.mnemonic i.operand i.next = .ok (m.ready, .jump target) := by
    intro target htarget
    rw [hmnemonic, execute, htarget]
    rfl
  exact h.step_to_label hp hhalt hi hlabel hexecute ⟨rfl, h.callStack, rfl⟩ h.returns_le hcontrol

/-- A call notes the number after it, whose address is the return address. -/
theorem step_call (hlabels : p.keepsToLabels = true)
    (hmnemonic : i.mnemonic = .bsr ∨ i.mnemonic = .jsr) : StepFollows p c m := by
  have htransfer : (∃ condition, i.mnemonic = .branch condition) ∨ i.mnemonic = .bsr ∨
      i.mnemonic = .jsr ∨ i.mnemonic = .jmp := by
    rcases hmnemonic with hbsr | hjsr
    · exact .inr (.inl hbsr)
    · exact .inr (.inr (.inl hjsr))
  obtain ⟨name, hlabel⟩ := hp.label_of_transfer hlabels (List.mem_of_getElem? hi) htransfer
  have hcontrol : c.execute? p m.flags i =
      Control.goto? p { c with returns := (c.index + 1) :: c.returns } i.operand := by
    rcases hmnemonic with hmnemonic | hmnemonic <;> rw [Control.execute?, hmnemonic]
  have hexecute : ∀ target, m.ready.target i.operand = .ok target →
      m.ready.execute i.mnemonic i.operand i.next =
        .ok ({ m.ready with callStack := i.next :: m.callStack }, .jump target) := by
    intro target htarget
    rcases hmnemonic with hmnemonic | hmnemonic <;> rw [hmnemonic, execute, htarget] <;> rfl
  have hstack : i.next :: m.callStack = ((c.index + 1) :: c.returns).map p.addressOf := by
    rw [h.callStack, hp.laid.next_eq hi, List.map_cons]
  refine h.step_to_label hp hhalt hi hlabel hexecute ⟨rfl, hstack, rfl⟩ ?_ hcontrol
  intro j hj
  rcases List.mem_cons.mp hj with rfl | hj
  · exact Program.length_of_getElem? hi
  · exact h.returns_le j hj

/-- A return goes to the latest number that was noted, and stops the program if there is none. -/
theorem step_return (hmnemonic : i.mnemonic = .rts) : StepFollows p c m := by
  have hstack := h.callStack
  -- The stack of addresses and the stack of places are empty together.
  cases hreturns : c.returns with
  | nil =>
    rw [hreturns] at hstack
    have hexecute : m.ready.execute i.mnemonic i.operand i.next =
        .ok (m.ready, .halt .returned) := by
      rw [hmnemonic, execute, ready, hstack]
      rfl
    have hcontrol : c.execute? p m.flags i = some { c with halt := some .returned } := by
      rw [Control.execute?, hmnemonic, hreturns]
    exact h.step_stop hp hhalt hi (by decide) hexecute hcontrol
  | cons k rest =>
    rw [hreturns] at hstack
    have hbound := h.returns_le
    rw [hreturns] at hbound
    have hexecute : m.ready.execute i.mnemonic i.operand i.next =
        .ok ({ m.ready with callStack := rest.map p.addressOf }, .jump (p.addressOf k)) := by
      rw [hmnemonic, execute, ready, hstack]
      rfl
    have hcontrol : c.execute? p m.flags i =
        some { index := k, returns := rest, halt := none } := by
      rw [Control.execute?, hmnemonic, hreturns, ← hhalt]
    exact h.step_goto hp hhalt hi hexecute (fun n => rfl) ⟨rfl, rfl, rfl⟩
      (hbound k List.mem_cons_self) (fun j hj => hbound j (List.mem_cons_of_mem _ hj)) hcontrol

end Follows

/-- Past the last instruction the program is exhausted. -/
theorem Follows.step_exhausted (hp : p.WellFormed) (h : m.Follows p c) (hhalt : c.halt = none)
    (hi : p.lines[c.index]? = none) : StepFollows p c m := by
  have hpc := h.pc_of_none hi
  have hcurrent : m.current? = none := by
    rw [current?, h.program, h.pc, hp.laid.at?_addressOf, hi]
  rw [← h.program] at hpc
  have hstep := step_of_stop (h.halt.trans hhalt) hcurrent hpc
  refine ⟨{ c with halt := some .exhausted }, ?_, ?_, ?_⟩
  · simp only [Control.step?, hhalt, hi]
  · rw [hstep]
    exact h.stop (by decide) rfl rfl rfl rfl
  · rw [hstep]

/-- A program that has stopped stays as it is. -/
theorem Follows.step_halted (h : m.Follows p c) {reason : Halt} (hhalt : c.halt = some reason) :
    StepFollows p c m := by
  have hstep := step_of_halted (h.halt.trans hhalt)
  refine ⟨c, ?_, ?_, ?_⟩
  · simp only [Control.step?, hhalt]
  · rw [hstep]
    exact h
  · rw [hstep, hhalt]

/-- One step keeps the machine where control says. -/
theorem Follows.step (hp : p.WellFormed) (hlabels : p.keepsToLabels = true) (h : m.Follows p c) :
    StepFollows p c m := by
  -- The cases of `Control.step?`, and below them those of `Control.execute?`.
  cases hhalt : c.halt with
  | some reason => exact h.step_halted hhalt
  | none =>
    cases hi : p.lines[c.index]? with
    | none => exact h.step_exhausted hp hhalt hi
    | some i =>
      cases hmnemonic : i.mnemonic with
      | branch condition => exact h.step_branch hp hhalt hi hlabels hmnemonic
      | jmp => exact h.step_jump hp hhalt hi hlabels hmnemonic
      | bsr => exact h.step_call hp hhalt hi hlabels (.inl hmnemonic)
      | jsr => exact h.step_call hp hhalt hi hlabels (.inr hmnemonic)
      | rts => exact h.step_return hp hhalt hi hmnemonic
      | swi =>
        have hexecute : m.ready.execute i.mnemonic i.operand i.next =
            .ok (m.ready, .halt .interrupted) := by rw [hmnemonic, execute]
        exact h.step_stop hp hhalt hi (by decide) hexecute (by rw [Control.execute?, hmnemonic])
      | stop =>
        have hexecute : m.ready.execute i.mnemonic i.operand i.next =
            .ok (m.ready, .halt .finished) := by rw [hmnemonic, execute]
        exact h.step_stop hp hhalt hi (by decide) hexecute (by rw [Control.execute?, hmnemonic])
      | _ => exact h.step_fallsThrough hp hhalt hi hlabels (by rw [hmnemonic]; rfl)

/-! ## All steps -/

/-- Control goes with the machine for any number of steps. -/
theorem Follows.steps (hp : p.WellFormed) (hlabels : p.keepsToLabels = true) (n : Nat) :
    ∃ c, Control.after? p (fun k => ((Machine.start p).after k).flags) n = some c ∧
      ((Machine.start p).after n).Follows p c := by
  -- `Machine.Follows` is the invariant; the step lemma carries it on.
  induction n with
  | zero => exact ⟨.start, rfl, .start hp⟩
  | succ n ih =>
    obtain ⟨c, hc, hfollows⟩ := ih
    obtain ⟨c', hc', hfollows', -⟩ := hfollows.step hp hlabels
    refine ⟨c', ?_, hfollows'⟩
    rw [Control.after?, hc]
    exact hc'

end Machine

/-- An assembled program that sends control to labels only is executed as it reads: after any number
of steps the machine follows control that goes from number to number. The next step is not an error,
follows control to the next place, and stops for no fault. -/
theorem control_of_assemble {source : String} {p : Program} (h : assemble source = .ok p)
    (hlabels : p.keepsToLabels = true) (n : Nat) :
    ∃ c c', Control.after? p (fun k => ((Machine.start p).after k).flags) n = some c ∧
      ((Machine.start p).after n).Follows p c ∧
      c.step? p ((Machine.start p).after n).flags = some c' ∧
      ((Machine.start p).after n).step.2 = .ok c'.halt ∧ c'.halt ≠ some .faulted := by
  have hp := assemble_wellFormed h
  obtain ⟨c, hc, hfollows⟩ := Machine.Follows.steps hp hlabels n
  obtain ⟨c', hc', hfollows', houtcome⟩ := hfollows.step hp hlabels
  refine ⟨c, c', hc, hfollows, hc', houtcome, ?_⟩
  rw [← hfollows'.halt]
  exact hfollows'.sound

/-- A call, the return from it and a branch to a label below `END`. -/
theorem control_of_assemble_past :
    ∃ p, assemble " BSR SUB\n BRA PAST\nSUB: RTS\n END\nPAST:" = .ok p ∧
      p.keepsToLabels = true ∧ ((Machine.start p).after 1).callStack = [0xFE02] ∧
      ((Machine.start p).after 3).pc = 0xFE06 ∧
      ((Machine.start p).after 4).halt = some .exhausted ∧
      ∃ c, Control.after? p (fun k => ((Machine.start p).after k).flags) 4 = some c ∧
        ((Machine.start p).after 4).Follows p c := by
  obtain ⟨p, hp, htest⟩ := Except.exists_of_any
    (x := assemble " BSR SUB\n BRA PAST\nSUB: RTS\n END\nPAST:")
    (q := fun p => p.keepsToLabels && ((Machine.start p).after 1).callStack == [0xFE02] &&
      ((Machine.start p).after 3).pc == 0xFE06 &&
      ((Machine.start p).after 4).halt == some .exhausted) (by decide +kernel)
  simp only [Bool.and_eq_true, beq_iff_eq] at htest
  obtain ⟨⟨⟨hlabels, hstack⟩, hpc⟩, hhalt⟩ := htest
  obtain ⟨c, -, hc, hfollows, -⟩ := control_of_assemble hp hlabels 4
  exact ⟨p, hp, hlabels, hstack, hpc, hhalt, c, hc, hfollows⟩

end Teach6809
