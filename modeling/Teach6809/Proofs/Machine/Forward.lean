import Mathlib.Data.Nat.Find
import Teach6809.Proofs.Machine.Control
import Teach6809.Proofs.Machine.Fault
import Teach6809.Proofs.Machine.Progress
import Teach6809.Proofs.Machine.StepLimit

/-!
# Programs that only go forward

In a program without returns whose branches, jumps and calls all name labels further down
(`Program.forwardOnly`), every step leads to an instruction with a higher number, or past the last
one (`Machine.StandsAt.advances`). So there are no more steps than instructions, whatever the
registers, the data and the call stack hold. Main statement: such a program halts, and a limit of as
many steps as it has instructions is never used up.
-/

namespace Teach6809

/-- Whether a program has come to one of its ends: `END`, `SWI`, or past the last instruction. -/
def Halt.isEnd : Halt → Bool
  | finished | interrupted | exhausted => true
  | returned | faulted => false

/-- Whether every instruction leads further down only: control is sent to labels, each of them
declared on a line below the instruction that names it, and nothing returns. -/
def Program.forwardOnly (p : Program) : Bool :=
  p.keepsToLabels && p.lines.all fun i =>
    i.mnemonic != .rts &&
      match i.operand with
      | .label name => (p.labels.line? name).any fun line => i.line < line
      | _ => true

namespace Program

variable {p : Program} {i : PlacedInstruction}

/-- A program that only goes forward goes to labels only. -/
theorem keepsToLabels_of_forwardOnly (h : p.forwardOnly = true) : p.keepsToLabels = true :=
  (Bool.and_eq_true_iff.mp h).1

/-- A program that only goes forward has no return instruction. -/
theorem ne_rts_of_forwardOnly (h : p.forwardOnly = true) (hi : i ∈ p.lines) :
    i.mnemonic ≠ .rts := by
  have hall := List.all_eq_true.mp (Bool.and_eq_true_iff.mp h).2 i hi
  exact bne_iff_ne.mp (Bool.and_eq_true_iff.mp hall).1

/-- A label that an instruction names leads to an instruction with a higher number, or past the last
one. -/
theorem WellFormed.labelTarget?_of_forwardOnly (hp : p.WellFormed) (h : p.forwardOnly = true)
    {k : Nat} (hi : p.lines[k]? = some i) {name : String} (hlabel : i.operand = .label name) :
    ∃ j, k < j ∧ j ≤ p.lines.length ∧ p.labelTarget? name = some (p.addressOf j) := by
  have hall := List.all_eq_true.mp (Bool.and_eq_true_iff.mp h).2 i (List.mem_of_getElem? hi)
  have hbelow := (Bool.and_eq_true_iff.mp hall).2
  rw [hlabel] at hbelow
  obtain ⟨line, hline, hless⟩ := (Option.any_eq_true _ _).mp hbelow
  refine ⟨p.indexFromLine line, ?_, p.indexFromLine_le line, ?_⟩
  · exact (hp.line_lt_iff hi).mp (of_decide_eq_true hless)
  · rw [hp.laid.labelTarget?_eq, hline]
    rfl

end Program

namespace Machine

/-! ## Steps that go forward -/

variable {p : Program} {m : Machine} {i : PlacedInstruction} {k n : Nat}

/-- A running machine at the instruction with the given number, or past the last one. -/
structure StandsAt (p : Program) (k : Nat) (m : Machine) : Prop where
  program : m.program = p
  halt : m.halt = none
  index_le : k ≤ p.lines.length
  pc : m.pc = p.addressOf k

/-- How a step of a program that only goes forward ends: the program halts, or goes on from an
instruction before the last to one with a higher number, or past the last. -/
inductive Advances (p : Program) (k : Nat) (m : Machine) : Prop where
  | halts {reason : Halt} (hend : reason.isEnd = true) (houtcome : m.step.2 = .ok (some reason))
  | moves {j : Nat} (hk : k + 1 < p.lines.length) (hj : k < j) (houtcome : m.step.2 = .ok none)
      (hstands : m.step.1.StandsAt p j)

namespace StandsAt

/-- Control goes on at a number after an instruction that has left the machine running. -/
theorem advances_of_goto (h : m.StandsAt p k) {j : Nat} (hk : k + 1 < p.lines.length)
    (hkj : k < j) (hj : j ≤ p.lines.length) (after : Machine) (hprogram : after.program = m.program)
    (hhalt : after.halt = m.halt) (hstep : m.step = (after.goto (p.addressOf j), .ok after.halt)) :
    m.Advances p k := by
  refine .moves hk hkj ?_ ?_
  · rw [hstep, hhalt, h.halt]
  · rw [hstep]
    exact ⟨hprogram.trans h.program, hhalt.trans h.halt, hj, rfl⟩

/-- An instruction moves control to a later one, to the end of the program, or stops the machine. -/
theorem advances_of_current (hp : p.WellFormed) (hforward : p.forwardOnly = true)
    (h : m.StandsAt p k) (hi : p.lines[k]? = some i) : m.Advances p k := by
  have hmem := List.mem_of_getElem? hi
  have hcurrent : m.current? = some i := by
    rw [current?, h.program, h.pc, hp.laid.at?_addressOf, hi]
  have hlabels := Program.keepsToLabels_of_forwardOnly hforward
  have hreturn := Program.ne_rts_of_forwardOnly hforward hmem
  have hpc := writesPc_of_keepsToLabels (List.all_eq_true.mp hlabels i hmem)
  obtain ⟨after, flow, hexecute⟩ := execute_current_ok hp h.program hcurrent
  have hstep := step_of_execute h.halt hcurrent hexecute
  have hexecuted := executed hexecute
  have hsame : after.halt = m.halt := by
    rw [hexecuted.halt, hpc]
    rfl
  -- Only `END` has no instruction after it.
  have hlast (hgoes : ∀ reason, flow ≠ .halt reason) : k + 1 < p.lines.length := by
    have hstop : i.mnemonic ≠ .stop := by
      intro hmnemonic
      rw [hmnemonic] at hexecute
      cases hexecute
      exact hgoes _ rfl
    obtain ⟨j, hj, -⟩ := hp.exists_next hi hstop
    exact Program.length_of_getElem? hj
  cases flow with
  | next =>
    have hk := hlast (by simp)
    refine h.advances_of_goto hk (Nat.lt_succ_self k) (Nat.le_of_lt hk)
      { after with steps := after.steps + 1 } hexecuted.program hsame ?_
    rw [hstep, ← hp.laid.next_eq hi]
    rfl
  | jump address =>
    have hk := hlast (by simp)
    obtain ⟨htransfer, htarget⟩ := target_of_execute_jump hreturn hpc hexecute
    obtain ⟨name, hlabel⟩ := hp.label_of_transfer hlabels hmem htransfer
    rw [hlabel] at htarget
    have haddress := target_label.mp htarget
    obtain ⟨j, hkj, hj, hfound⟩ := hp.labelTarget?_of_forwardOnly hforward hi hlabel
    have hprogram : m.ready.program = p := h.program
    rw [hprogram, hfound] at haddress
    cases haddress
    exact h.advances_of_goto hk hkj hj { after with steps := after.steps + 1 } hexecuted.program
      hsame hstep
  | halt reason =>
    refine .halts ?_ (congrArg Prod.snd hstep)
    rcases reason_of_execute hexecute with ⟨-, rfl⟩ | ⟨-, rfl⟩ | ⟨hrts, -⟩
    · rfl
    · rfl
    · exact absurd hrts hreturn

/-- A step halts the program, or leads to a higher number. -/
theorem advances (hp : p.WellFormed) (hforward : p.forwardOnly = true) (h : m.StandsAt p k) :
    m.Advances p k := by
  cases hi : p.lines[k]? with
  | some i => exact h.advances_of_current hp hforward hi
  | none =>
    have hpc : m.pc = UInt16.ofNat p.stop := by rw [h.pc, Program.addressOf, hi]
    have hcurrent : m.current? = none := by
      rw [current?, h.program, h.pc, hp.laid.at?_addressOf, hi]
    rw [← h.program] at hpc
    refine .halts ?_ (congrArg Prod.snd (step_of_stop h.halt hcurrent hpc))
    rfl

/-! ## Several steps -/

/-- Steps that go on lead to a number that has grown by as much at least. -/
theorem steppedTimes (hp : p.WellFormed) (hforward : p.forwardOnly = true) (h : m.StandsAt p k)
    (hgoes : m.GoesOn n) : ∃ j, k + n ≤ j ∧ (m.steppedTimes n).StandsAt p j := by
  induction n with
  | zero => exact ⟨k, Nat.le_refl k, h⟩
  | succ n ih =>
    obtain ⟨j, hj, hstands⟩ := ih (hgoes.mono (Nat.le_succ n))
    have hlast := hgoes n (Nat.lt_succ_self n)
    cases hstands.advances hp hforward with
    | halts _ houtcome =>
      rw [hlast] at houtcome
      cases houtcome
    | @moves j' _ hj' _ hnext =>
      rw [steppedTimes_succ]
      exact ⟨j', by omega, hnext⟩

/-- So there are not more of them than instructions to come, and the last is not one of those. -/
theorem lt_length (hp : p.WellFormed) (hforward : p.forwardOnly = true) (h : m.StandsAt p k)
    (hk : k < p.lines.length) (hgoes : m.GoesOn n) : k + n < p.lines.length := by
  cases n with
  | zero => exact hk
  | succ n =>
    obtain ⟨j, hj, hstands⟩ := h.steppedTimes hp hforward (hgoes.mono (Nat.le_succ n))
    have hlast := hgoes n (Nat.lt_succ_self n)
    cases hstands.advances hp hforward with
    | halts _ houtcome =>
      rw [hlast] at houtcome
      cases houtcome
    | moves hj' => omega

/-- There is a step that halts the program, after fewer steps than there are instructions. -/
theorem exists_halting (hp : p.WellFormed) (hforward : p.forwardOnly = true) (h : m.StandsAt p k)
    (hk : k < p.lines.length) :
    ∃ n < p.lines.length, m.GoesOn n ∧
      ∃ reason, Halt.isEnd reason = true ∧ (m.steppedTimes n).step.2 = .ok (some reason) := by
  have hbound : ¬ m.GoesOn p.lines.length := by
    intro hgoes
    have := h.lt_length hp hforward hk hgoes
    omega
  obtain ⟨n, hn, hgoes, hended⟩ := exists_ended hbound
  refine ⟨n, hn, hgoes, ?_⟩
  obtain ⟨j, -, hstands⟩ := h.steppedTimes hp hforward hgoes
  cases hstands.advances hp hforward with
  | halts hend houtcome => exact ⟨_, hend, houtcome⟩
  | moves _ _ houtcome => exact absurd houtcome hended

end StandsAt

/-! ## Runs to a halt -/

section Halting

variable {reason : Halt} (hgoes : m.GoesOn n)
  (houtcome : (m.steppedTimes n).step.2 = .ok (some reason))

include houtcome in
/-- From the halting step on the machine has the reason of the halt. -/
theorem halt_of_halting : (m.steppedTimes (n + 1)).halt = some reason := by
  rw [steppedTimes_succ]
  exact (m.steppedTimes n).stepped.halt houtcome

include houtcome in
/-- After the step that halts the machine nothing changes. -/
theorem steppedTimes_of_halting {more : Nat} (hmore : n < more) :
    m.steppedTimes more = m.steppedTimes (n + 1) := by
  obtain ⟨extra, rfl⟩ := Nat.exists_eq_add_of_le hmore
  rw [steppedTimes_add, steppedTimes_of_halted]
  rw [halt_of_halting houtcome]
  exact Option.some_ne_none reason

include hgoes houtcome

/-- After the halting step nothing is counted any more. -/
theorem steps_le_of_halting (k : Nat) : (m.steppedTimes k).steps ≤ m.steps + (n + 1) := by
  rcases Nat.lt_or_ge n k with hless | hle
  · rw [steppedTimes_of_halting houtcome hless, steppedTimes_succ, ← Nat.add_assoc, ← hgoes.steps]
    exact (m.steppedTimes n).stepped.steps_le_succ
  · rw [(hgoes.mono hle).steps]
    omega

/-- A run that may take the step that halts the machine ends with it, unless it is called off
before. -/
theorem runUntil_of_halting {limit : Nat} (hlimit : n < limit) (cancel : Nat → Machine → Bool) :
    (m.runUntil limit cancel).machine = m.steppedTimes (n + 1) ∧
        (m.runUntil limit cancel).outcome = .ok (some reason) ∨
      ∃ taken ≤ n, cancel taken (m.steppedTimes taken) = true ∧
        (m.runUntil limit cancel).machine = m.steppedTimes taken ∧
        (m.runUntil limit cancel).outcome = .ok none := by
  by_cases hcancelled :
      ∃ taken, 0 < taken ∧ taken ≤ n ∧ cancel taken (m.steppedTimes taken) = true
  · -- The first time that the caller calls off is the last step of the run.
    obtain ⟨hpos, htaken, hcancel⟩ := Nat.find_spec hcancelled
    have hbefore := fun k => Nat.find_min hcancelled (m := k)
    generalize Nat.find hcancelled = taken at hpos htaken hcancel hbefore
    obtain ⟨count, rfl⟩ := Nat.exists_eq_succ_of_ne_zero (Nat.ne_of_gt hpos)
    have hcalm : ∀ k, 0 < k → k ≤ count → cancel k (m.steppedTimes k) = false := by
      intro k hk hle
      exact Bool.eq_false_iff.mpr fun hcall =>
        hbefore k (Nat.lt_succ_of_le hle) ⟨hk, by omega, hcall⟩
    obtain ⟨left, hleft⟩ : ∃ left, limit - 1 = left + count := ⟨limit - 1 - count, by omega⟩
    obtain ⟨writes, started, hrun⟩ :=
      continueRun_of_goesOn left (hgoes.mono (Nat.le_of_succ_le htaken)) hcalm
    rw [continueRun_of_cancelled (hgoes.step_eq htaken) hcancel, ← hleft] at hrun
    exact .inr ⟨count + 1, htaken, hcancel, by rw [runUntil, hrun], by rw [runUntil, hrun]⟩
  · -- Nobody calls off, so the run takes the step that halts.
    have hcalm : ∀ k, 0 < k → k ≤ n → cancel k (m.steppedTimes k) = false := by
      intro k hk hle
      exact Bool.eq_false_iff.mpr fun hcall => hcancelled ⟨k, hk, hle, hcall⟩
    obtain ⟨left, hleft⟩ : ∃ left, limit - 1 = left + n := ⟨limit - 1 - n, by omega⟩
    obtain ⟨writes, started, hrun⟩ := continueRun_of_goesOn left hgoes hcalm
    have hstep : (m.steppedTimes n).step = (m.steppedTimes (n + 1), .ok (some reason)) := by
      rw [steppedTimes_succ, ← houtcome]
    rw [continueRun_of_ended hstep (by simp), ← hleft] at hrun
    exact .inl ⟨by rw [runUntil, hrun], by rw [runUntil, hrun]⟩

end Halting

/-- A program of an assembled source text that only goes forward halts from wherever one of its
instructions starts, whatever the registers, the data and the call stack are: with as many steps as
it has instructions it is at one of its ends, and never more instructions are executed. A run that
may take as many steps ends there too, unless its caller calls it off before; it does not use up its
limit. -/
theorem halts_of_forwardOnly {source : String} (h : assemble source = .ok p)
    (hforward : p.forwardOnly = true) (hprogram : m.program = p) (hrunning : m.halt = none)
    (hpc : ∃ i ∈ p.lines, i.address = m.pc) :
    (∀ n, (m.steppedTimes n).steps ≤ m.steps + p.lines.length) ∧
    ∃ reason, Halt.isEnd reason = true ∧
      (∀ n, p.lines.length ≤ n → (m.steppedTimes n).halt = some reason) ∧
      ∀ limit cancel, p.lines.length ≤ limit →
        (m.runUntil limit cancel).machine = m.steppedTimes p.lines.length ∧
            (m.runUntil limit cancel).outcome = .ok (some reason) ∨
          ∃ taken < p.lines.length, cancel taken (m.steppedTimes taken) = true ∧
            (m.runUntil limit cancel).machine = m.steppedTimes taken ∧
            (m.runUntil limit cancel).outcome = .ok none := by
  have hp := assemble_wellFormed h
  obtain ⟨i, hi, haddress⟩ := hpc
  obtain ⟨k, hk⟩ := List.getElem?_of_mem hi
  have hlt := Program.length_of_getElem? hk
  have hstands : m.StandsAt p k := by
    refine ⟨hprogram, hrunning, Nat.le_of_lt hlt, ?_⟩
    rw [← haddress, Program.addressOf, hk]
  -- The step that halts is found once; every number of steps and every run is compared with it.
  obtain ⟨n, hn, hgoes, reason, hend, houtcome⟩ := hstands.exists_halting hp hforward hlt
  have hafter {more : Nat} (hmore : p.lines.length ≤ more) :
      m.steppedTimes more = m.steppedTimes (n + 1) :=
    steppedTimes_of_halting houtcome (Nat.lt_of_lt_of_le hn hmore)
  refine ⟨fun more => ?_, reason, hend, fun more hmore => ?_, fun limit cancel hlimit => ?_⟩
  · have := steps_le_of_halting hgoes houtcome more
    omega
  · rw [hafter hmore]
    exact halt_of_halting houtcome
  · rw [hafter (Nat.le_refl p.lines.length)]
    refine (runUntil_of_halting hgoes houtcome (Nat.lt_of_lt_of_le hn hlimit) cancel).imp_right ?_
    rintro ⟨taken, htaken, hcancelled⟩
    exact ⟨taken, Nat.lt_of_le_of_lt htaken hn, hcancelled⟩

/-- Started at a call, with flags and a call stack that are not those of a new machine: after the
call a branch leads past `END`, so two instructions are executed and a third step finds none. -/
theorem halts_of_forwardOnly_past :
    ∃ p, assemble " LDA #1\n BSR SUB\n NOP\nSUB: BEQ PAST\n END\n\nPAST:" = .ok p ∧
      p.forwardOnly = true ∧ p.lines.length = 5 ∧
      let m := (({ start p with callStack := [0x1234] } : Machine).set .cc 4).set .pc 0xFE02
      m.halt = none ∧ (∃ i ∈ p.lines, i.address = m.pc) ∧ (m.steppedTimes 3).steps = 2 ∧
      (m.run 5).machine = m.steppedTimes 5 ∧ (m.run 5).outcome = .ok (some .exhausted) := by
  obtain ⟨p, hp, htest⟩ := Except.exists_of_any
    (x := assemble " LDA #1\n BSR SUB\n NOP\nSUB: BEQ PAST\n END\n\nPAST:")
    (q := fun p =>
      let m := (({ start p with callStack := [0x1234] } : Machine).set .cc 4).set .pc 0xFE02
      p.forwardOnly && p.lines.length == 5 && p.lines.any (fun i => i.address == m.pc) &&
        (m.steppedTimes 3).steps == 2 && (m.steppedTimes 5).halt == some .exhausted)
    (by decide +kernel)
  simp only [Bool.and_eq_true, beq_iff_eq, List.any_eq_true] at htest
  obtain ⟨⟨⟨⟨hforward, hlength⟩, hpc⟩, hcount⟩, hexhausted⟩ := htest
  obtain ⟨-, reason, -, hhalted, hruns⟩ := halts_of_forwardOnly hp hforward rfl rfl hpc
  rw [hlength] at hhalted hruns
  rw [hhalted 5 (Nat.le_refl 5)] at hexhausted
  cases hexhausted
  refine ⟨p, hp, hforward, hlength, rfl, hpc, hcount, ?_⟩
  rcases hruns 5 (fun _ _ => false) (Nat.le_refl 5) with hrun | ⟨taken, -, hcall, -⟩
  · exact hrun
  · cases hcall

end Machine
end Teach6809
