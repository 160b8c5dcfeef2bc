import Teach6809.Proofs.Assembly.Retyped
import Teach6809.Proofs.Machine.Fault

/-!
# Typing an instruction instead of stepping

The instruction at the program counter can be stepped, or its text can be typed by hand. The address
of the next instruction matters to calls only, so any other instruction does the same both ways;
what differs is where control goes on, and that a step is counted. Main statement: this is so in
every state of a machine with an assembled program, if the instruction does not end the program.
-/

namespace Teach6809
namespace Machine

/-- The machines agree on everything but `PC` and the count of steps. -/
structure SameButPc (m after : Machine) : Prop where
  program : m.program = after.program
  registers : ∀ r, r ≠ .pc → m.get r = after.get r
  flags : m.flags = after.flags
  data : m.data = after.data
  callStack : m.callStack = after.callStack
  halt : m.halt = after.halt
  writes : m.writes = after.writes

variable {m after : Machine} {flow : Flow}

theorem SameButPc.goto (m : Machine) (steps : Nat) (here there : Word) :
    (m.goto here).SameButPc (({ m with steps } : Machine).goto there) where
  program := rfl
  registers := by
    intro r hr
    cases r with
    | pc => exact absurd rfl hr
    | _ => rfl
  flags := rfl
  data := rfl
  callStack := rfl
  halt := rfl
  writes := rfl

/-- Only a call uses the address to return to. -/
theorem execute_eq_of_not_call (m : Machine) {instruction : Mnemonic} (hbsr : instruction ≠ .bsr)
    (hjsr : instruction ≠ .jsr) (operand : Operand) (next other : Word) :
    m.execute instruction operand next = m.execute instruction operand other := by
  cases instruction with
  | bsr => exact absurd rfl hbsr
  | jsr => exact absurd rfl hjsr
  | _ => rfl

/-- A line typed by hand whose instruction goes on is executed and followed from `PC`. -/
theorem evaluate_of_going {line : String} {i : CheckedInstruction}
    (hgoes : ∀ reason, flow ≠ .halt reason) (hread : readTyped m.program.labels line = .ok i)
    (hexecute : m.ready.execute i.mnemonic i.operand m.pc = .ok (after, flow)) :
    m.evaluate line = (after.follow m.pc flow, .ok (after.follow m.pc flow).halt) := by
  have hchecked : ({ m with writes := [] } : Machine).evaluateChecked i =
      .ok (after.follow m.pc flow) := by
    show (m.ready.execute i.mnemonic i.operand m.pc).map _ = _
    rw [hexecute]
    cases flow with
    | halt reason => exact absurd rfl (hgoes reason)
    | next | jump => rfl
  simp only [evaluate, hread, hchecked]

section

variable (hgoes : ∀ reason, flow ≠ .halt reason) (hafter : after.halt = none)

include hgoes hafter

/-- A line typed by hand whose instruction goes on leaves the machine running where it went. -/
theorem evaluate_of_execute {line : String} {i : CheckedInstruction}
    (hread : readTyped m.program.labels line = .ok i)
    (hexecute : m.ready.execute i.mnemonic i.operand m.pc = .ok (after, flow)) :
    m.evaluate line = (after.follow m.pc flow, .ok none) := by
  rw [evaluate_of_going hgoes hread hexecute]
  cases flow with
  | halt reason => exact absurd rfl (hgoes reason)
  | next | jump => exact congrArg (Prod.mk _) (congrArg Except.ok hafter)

/-- A step whose instruction goes on leaves the machine running where it went. -/
theorem step_of_going {i : PlacedInstruction} (hhalt : m.halt = none)
    (hcurrent : m.current? = some i)
    (hexecute : m.ready.execute i.mnemonic i.operand i.next = .ok (after, flow)) :
    m.step = (after.finish i flow, .ok none) := by
  rw [step_of_execute hhalt hcurrent hexecute]
  cases flow with
  | halt reason => exact absurd rfl (hgoes reason)
  | next | jump => exact congrArg (Prod.mk _) (congrArg Except.ok hafter)

end

end Machine

/-- Whatever was done to a machine with an assembled program: if it is not stopped and stands at an
instruction that is no call and does not end the program, typing the text of this instruction does
what a step does, but that it is not counted. If the instruction transfers control, both lead to the
same place; if not, typing leaves the program counter and a step moves it to the next
instruction. -/
theorem retyped_of_assemble {source : String} {p : Program} (h : assemble source = .ok p)
    (actions : List Machine.Action) :
    let m := (Machine.start p).performAll actions
    ∀ i, m.halt = none → m.current? = some i → i.mnemonic ≠ .bsr → i.mnemonic ≠ .jsr →
      m.ends i.toCheckedInstruction = false →
      ∃ typed stepped, m.evaluate i.text = (typed, .ok none) ∧ m.step = (stepped, .ok none) ∧
        typed.SameButPc stepped ∧ typed.steps = m.steps ∧ stepped.steps = m.steps + 1 ∧
        (m.transfers i.toCheckedInstruction = true → typed.pc = stepped.pc) ∧
        (m.transfers i.toCheckedInstruction = false → typed.pc = m.pc ∧
          ∃ k j, p.lines[k]? = some i ∧ p.lines[k + 1]? = some j ∧ stepped.pc = j.address) := by
  intro m i hrunning hcurrent hbsr hjsr hends
  have hp := assemble_wellFormed h
  have hm : m.program = p := (Machine.start p).program_performAll actions
  have hi := Machine.mem_of_current? hp hm hcurrent
  have hread := readTyped_text h hi
  rw [← hm] at hread
  -- Typed or fetched, it is one execution; both ways are read off it.
  obtain ⟨after, flow, hexecute⟩ := Machine.execute_current_ok hp hm hcurrent
  have hexecuted : m.ready.Executed i.toCheckedInstruction i.next after flow :=
    Machine.executed hexecute
  have hgoes : ∀ reason, flow ≠ .halt reason := by
    rintro reason rfl
    have hended := hexecuted.ends.mp ⟨reason, rfl⟩
    exact absurd hended (Bool.eq_false_iff.mp hends)
  have hhalt : after.halt = none := by
    rw [hexecuted.halt, show m.ready.halt = none from hrunning, ite_self]
  have hsteps : after.steps = m.steps := hexecuted.steps
  have htyped := Machine.evaluate_of_execute hgoes hhalt hread
    ((m.ready.execute_eq_of_not_call hbsr hjsr i.operand m.pc i.next).trans hexecute)
  have hstep := Machine.step_of_going hgoes hhalt hrunning hcurrent hexecute
  cases flow with
  | halt reason => exact absurd rfl (hgoes reason)
  | next =>
    have hstays : m.transfers i.toCheckedInstruction ≠ true := fun htransfers => by
      obtain ⟨target, hflow⟩ := hexecuted.transfers.mpr htransfers
      cases hflow
    -- Only the end of the program has no instruction behind it, and the end halts.
    have hstop : i.mnemonic ≠ .stop := by
      intro hstop
      rw [Machine.ends, hstop] at hends
      cases hends
    obtain ⟨k, hk⟩ := List.getElem?_of_mem hi
    obtain ⟨j, hj, hnext⟩ := hp.exists_next hk hstop
    exact ⟨_, _, htyped, hstep, .goto _ _ _ _, hsteps, congrArg (· + 1) hsteps,
      fun htransfers => absurd htransfers hstays, fun _ => ⟨rfl, k, j, hk, hj, hnext⟩⟩
  | jump target =>
    have hleaves : m.transfers i.toCheckedInstruction = true :=
      hexecuted.transfers.mp ⟨target, rfl⟩
    refine ⟨_, _, htyped, hstep, .goto _ _ _ _, hsteps, congrArg (· + 1) hsteps, fun _ => rfl,
      fun hstays => ?_⟩
    rw [hleaves] at hstays
    cases hstays

/-- A store written behind a label, in lower case and with white space in its operand, and then a
branch back to it. -/
theorem retyped_of_assemble_loop :
    ∃ p, assemble "Loop: sta $ 20 ; keep\n bra loop\n end" = .ok p ∧
      let m := Machine.start p
      let n := m.performAll [.step]
      (∃ typed stepped, m.evaluate "STA $20" = (typed, .ok none) ∧ m.step = (stepped, .ok none) ∧
        typed.SameButPc stepped ∧ typed.pc = 0xFE00) ∧
      ∃ typed stepped, n.evaluate "BRA LOOP" = (typed, .ok none) ∧ n.step = (stepped, .ok none) ∧
        typed.SameButPc stepped ∧ typed.pc = stepped.pc := by
  obtain ⟨p, hp, htest⟩ := Except.exists_of_any
    (x := assemble "Loop: sta $ 20 ; keep\n bra loop\n end")
    (q := fun p =>
      let m := Machine.start p
      let n := m.performAll [.step]
      m.current?.any (fun i => i.text == "STA $20" && i.mnemonic != .bsr && i.mnemonic != .jsr &&
        !m.ends i.toCheckedInstruction && !m.transfers i.toCheckedInstruction) &&
      n.halt == none &&
      n.current?.any fun i => i.text == "BRA LOOP" && i.mnemonic != .bsr && i.mnemonic != .jsr &&
        !n.ends i.toCheckedInstruction && n.transfers i.toCheckedInstruction) (by decide +kernel)
  simp only [Bool.and_eq_true, beq_iff_eq, bne_iff_ne, Bool.not_eq_true', Option.any_eq_true,
    and_assoc] at htest
  obtain ⟨⟨i, hi, htext, hbsr, hjsr, hends, hstays⟩, hrunning, j, hj, htext', hbsr', hjsr', hends',
    hleaves⟩ := htest
  obtain ⟨typed, stepped, htyped, hstep, hsame, -, -, -, hpc⟩ :=
    retyped_of_assemble hp [] i rfl hi hbsr hjsr hends
  obtain ⟨typed', stepped', htyped', hstep', hsame', -, -, hpc', -⟩ :=
    retyped_of_assemble hp [.step] j hrunning hj hbsr' hjsr' hends'
  rw [htext] at htyped
  rw [htext'] at htyped'
  exact ⟨p, hp, ⟨typed, stepped, htyped, hstep, hsame, (hpc hstays).1⟩, typed', stepped', htyped',
    hstep', hsame', hpc' hleaves⟩

end Teach6809
