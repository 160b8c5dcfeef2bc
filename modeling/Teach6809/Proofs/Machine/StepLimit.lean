import Teach6809.Proofs.Machine.Unrolled

/-!
# The step limit

A run is cut off by its limit exactly if all the steps it may take go on, and then it has taken all
of them. Nothing is lost by the cut: running again from where the machine is left is one run with
both limits together. A caller who calls the run off after its last step is heard before the limit.
Main statement: `stepLimit_of_run`.
-/

namespace Teach6809
namespace Machine

variable {m after : Machine} {operand : Operand} {next : Word} {cause : Cause}

/-! ## Errors of steps -/

/-- An operand that is no address is what fails, if anything does. -/
theorem address_eq_error (h : m.address operand = .error cause) : cause = .noAddress operand := by
  cases operand with
  | direct | extended | indexed => cases h
  | _ =>
    cases h
    rfl

/-- Reading a byte fails for want of an address only. -/
theorem readByte_eq_error (h : m.readByte operand = .error cause) :
    cause = .noAddress operand := by
  unfold readByte at h
  split at h
  · cases h
  · exact address_eq_error (Except.map_eq_error.mp h)

/-- Reading a word fails for want of an address only. -/
theorem readWord_eq_error (h : m.readWord operand = .error cause) :
    cause = .noAddress operand := by
  unfold readWord at h
  split at h
  · cases h
  · exact address_eq_error (Except.map_eq_error.mp h)

theorem load_eq_error {target : MovedRegister} (h : m.load target operand = .error cause) :
    cause = .noAddress operand := by
  unfold load at h
  split at h
  · rcases Except.bind_eq_error.mp h with hread | ⟨value, -, h⟩
    · exact readWord_eq_error hread
    · cases h
  · rcases Except.bind_eq_error.mp h with hread | ⟨value, -, h⟩
    · exact readByte_eq_error hread
    · cases h

theorem storeRegister_eq_error {source : MovedRegister}
    (h : m.storeRegister source operand = .error cause) : cause = .noAddress operand := by
  rcases Except.bind_eq_error.mp h with haddress | ⟨address, -, h⟩
  · exact address_eq_error haddress
  · dsimp only at h
    split at h <;> cases h

theorem binary_eq_error {operation : BinaryOperation} {acc : Accumulator}
    (h : m.binary operation acc operand = .error cause) : cause = .noAddress operand := by
  rcases Except.bind_eq_error.mp h with hread | ⟨value, -, h⟩
  · exact readByte_eq_error hread
  · cases h

/-- A target is missing for want of an address or of a label. -/
theorem target_eq_error (h : m.target operand = .error cause) :
    cause = .noAddress operand ∨ ∃ name, cause = .unresolvedLabel name := by
  unfold target at h
  split at h
  · rename_i name
    split at h
    · cases h
    · cases h
      exact .inr ⟨name, rfl⟩
  · exact .inl (address_eq_error h)

/-- A pair of registers is missing if the operand is something else. -/
theorem pair_eq_error (h : pair operand = .error cause) : cause = .noPair operand := by
  cases operand with
  | pair => cases h
  | _ =>
    cases h
    rfl

/-- What an instruction can fail with is its operand. -/
theorem execute_eq_error {instruction : Mnemonic}
    (h : m.execute instruction operand next = .error cause) :
    cause = .noAddress operand ∨ (∃ name, cause = .unresolvedLabel name) ∨
      cause = .noPair operand := by
  have htarget (hcause : m.target operand = .error cause) :
      cause = .noAddress operand ∨ (∃ name, cause = .unresolvedLabel name) ∨
        cause = .noPair operand :=
    (target_eq_error hcause).imp_right .inl
  cases instruction with
  | load register => exact .inl (load_eq_error (Except.map_eq_error.mp h))
  | store register => exact .inl (storeRegister_eq_error (Except.map_eq_error.mp h))
  | binary operation acc => exact .inl (binary_eq_error (Except.map_eq_error.mp h))
  | unary | nop | swi | stop => cases h
  | rts =>
    rw [execute] at h
    split at h <;> cases h
  | branch condition =>
    rw [execute] at h
    split at h
    · exact htarget (Except.map_eq_error.mp h)
    · cases h
  | bsr | jsr | jmp => exact htarget (Except.map_eq_error.mp h)
  | tfr | exg => exact .inr (.inr (pair_eq_error (Except.map_eq_error.mp h)))

/-- No step fails as a run does that has used up its limit. -/
theorem Stepped.kind_ne_stepLimit {outcome : Outcome} (h : m.Stepped after outcome)
    {problem : Diagnostic} (houtcome : outcome = .error problem) :
    problem.cause.kind ≠ .stepLimit := by
  cases h with
  | stopped | exhausted | executed => cases houtcome
  | missing =>
    cases houtcome
    simp [Diagnostic.unplaced, Cause.kind]
  | failed hhalt hcurrent hexecute =>
    cases houtcome
    rcases execute_eq_error hexecute with rfl | ⟨name, rfl⟩ | rfl
    all_goals simp [Diagnostic.placed, Cause.kind]

/-! ## Steps that go on -/

/-- That a number of steps can be taken, of which none stops the machine or fails. -/
def GoesOn (m : Machine) (count : Nat) : Prop := ∀ n < count, (m.steppedTimes n).step.2 = .ok none

/-- A step after which another can follow counts as one. -/
theorem Stepped.steps {outcome : Outcome} (h : m.Stepped after outcome)
    (houtcome : outcome = .ok none) : after.steps = m.steps + 1 := by
  cases h with
  | stopped | exhausted | missing | failed => cases houtcome
  | executed hhalt hcurrent hexecute =>
    rename_i i after flow
    have hkeeps := (execute_keeps hexecute).steps
    cases flow <;> exact congrArg (· + 1) hkeeps

namespace GoesOn

variable {count : Nat}

theorem mono {fewer : Nat} (h : m.GoesOn count) (hle : fewer ≤ count) : m.GoesOn fewer :=
  fun n hn => h n (Nat.lt_of_lt_of_le hn hle)

/-- While steps go on, the next machine is the stepped one. -/
theorem step_eq (h : m.GoesOn count) {n : Nat} (hn : n < count) :
    (m.steppedTimes n).step = (m.steppedTimes (n + 1), .ok none) := by
  rw [steppedTimes_succ, ← h n hn]

/-- Steps that go on are all counted. -/
theorem steps (h : m.GoesOn count) : (m.steppedTimes count).steps = m.steps + count := by
  induction count with
  | zero => rfl
  | succ count ih =>
    have hlast := (m.steppedTimes count).stepped.steps (h count (Nat.lt_succ_self count))
    rw [steppedTimes_succ, hlast, ih (h.mono (Nat.le_succ count)), Nat.add_assoc]

/-- A machine that has gone on has not stopped. -/
theorem halt (h : m.GoesOn (count + 1)) : (m.steppedTimes (count + 1)).halt = none := by
  rw [steppedTimes_succ]
  exact (m.steppedTimes count).stepped.halt (h count (Nat.lt_succ_self count))

end GoesOn

/-- If not all of some steps go on, there is a first one that does not. -/
theorem exists_ended {count : Nat} (h : ¬ m.GoesOn count) :
    ∃ n < count, m.GoesOn n ∧ (m.steppedTimes n).step.2 ≠ .ok none := by
  induction count with
  | zero => exact absurd (fun n hn => absurd hn (Nat.not_lt_zero n)) h
  | succ count ih =>
    by_cases hbefore : m.GoesOn count
    · refine ⟨count, Nat.lt_succ_self count, hbefore, fun hlast => h fun n hn => ?_⟩
      rcases Nat.lt_succ_iff_lt_or_eq.mp hn with hn | rfl
      · exact hbefore n hn
      · exact hlast
    · obtain ⟨n, hn, hgoes, hended⟩ := ih hbefore
      exact ⟨n, Nat.lt_succ_of_lt hn, hgoes, hended⟩

/-! ## Runs over steps that go on -/

section Runs

variable {cancel : Nat → Machine → Bool} {left count limit : Nat} {writes : List (Word × Byte)}
  {started : List PlacedInstruction}

/-- A step after which another could follow is the last one if the limit is used up. -/
theorem continueRun_of_spent (hstep : m.step = (after, .ok none))
    (hcancel : cancel (count + 1) after = false) :
    continueRun cancel 0 count m writes started =
      { machine := after, outcome := .error (.unplaced (.stepLimit (count + 1)))
        writes := writes.reverse ++ after.writes
        started := (m.starting?.toList ++ started).reverse } := by
  rw [continueRun, hstep]
  dsimp only
  rw [if_neg (Bool.eq_false_iff.mp hcancel), List.reverse_append, List.reverse_reverse]

/-- A run goes through steps that go on as long as it is not called off. -/
theorem continueRun_of_goesOn (left : Nat) (h : m.GoesOn count)
    (hcancel : ∀ n, 0 < n → n ≤ count → cancel n (m.steppedTimes n) = false) :
    ∃ writes started, continueRun cancel (left + count) 0 m [] [] =
      continueRun cancel left count (m.steppedTimes count) writes started := by
  -- The induction splits off the last of the steps, the one the run takes next.
  induction count generalizing left with
  | zero => exact ⟨[], [], rfl⟩
  | succ count ih =>
    obtain ⟨writes, started, hrun⟩ := ih (left + 1) (h.mono (Nat.le_succ count))
      fun n hpos hn => hcancel n hpos (Nat.le_succ_of_le hn)
    rw [Nat.add_right_comm, Nat.add_assoc] at hrun
    rw [hrun, continueRun_succ (h.step_eq (Nat.lt_succ_self count))
      (hcancel (count + 1) (Nat.succ_pos count) (Nat.le_refl _))]
    exact ⟨_, _, rfl⟩

/-- Without a caller nothing but the limit and the steps end a run. -/
theorem run_eq_continueRun (left : Nat) (h : m.GoesOn count) :
    ∃ writes started, m.run (left + count + 1) =
      continueRun (fun _ _ => false) left count (m.steppedTimes count) writes started := by
  apply continueRun_of_goesOn left h
  intro n hpos hn
  rfl

/-- A run that may take no more steps than go on is cut off after all of them. -/
theorem run_of_goesOn (h : m.GoesOn (count + 1)) :
    (m.run (count + 1)).machine = m.steppedTimes (count + 1) ∧
      (m.run (count + 1)).outcome = .error (.unplaced (.stepLimit (count + 1))) := by
  obtain ⟨writes, started, hrun⟩ := run_eq_continueRun 0 (h.mono (Nat.le_succ count))
  rw [Nat.zero_add, continueRun_of_spent (h.step_eq (Nat.lt_succ_self count)) rfl] at hrun
  rw [hrun]
  exact ⟨rfl, rfl⟩

/-- A run that may take more steps than go on ends as the first one that does not. -/
theorem run_of_ended (h : m.GoesOn count) (hcount : count < limit)
    (hended : (m.steppedTimes count).step.2 ≠ .ok none) :
    (m.run limit).outcome = (m.steppedTimes count).step.2 := by
  obtain ⟨left, rfl⟩ : ∃ left, limit = left + count + 1 := ⟨limit - 1 - count, by omega⟩
  obtain ⟨writes, started, hrun⟩ := run_eq_continueRun left h
  have hstep : (m.steppedTimes count).step =
      ((m.steppedTimes count).step.1, (m.steppedTimes count).step.2) := rfl
  rw [hrun, continueRun_of_ended hstep hended]

/-- A run that is called off after its last step has not failed. -/
theorem runUntil_of_cancelled (h : m.GoesOn (count + 1))
    (hcancel : ∀ n, 0 < n → n ≤ count → cancel n (m.steppedTimes n) = false)
    (hlast : cancel (count + 1) (m.steppedTimes (count + 1)) = true) :
    (m.runUntil (count + 1) cancel).machine = m.steppedTimes (count + 1) ∧
      (m.runUntil (count + 1) cancel).outcome = .ok none := by
  obtain ⟨writes, started, hrun⟩ :=
    continueRun_of_goesOn 0 (h.mono (Nat.le_succ count)) hcancel
  rw [Nat.zero_add, continueRun_of_cancelled (h.step_eq (Nat.lt_succ_self count)) hlast] at hrun
  rw [runUntil, Nat.add_sub_cancel, hrun]
  exact ⟨rfl, rfl⟩

/-! ## Runs that go on with another -/

/-- Two runs differ in nothing but what they have counted so far, and tell. -/
structure SameButCount (left count count' : Nat) (r r' : Run) : Prop where
  machine : r'.machine = r.machine
  outcome : r'.outcome = r.outcome ∨
    r.outcome = .error (.unplaced (.stepLimit (count + left + 1))) ∧
      r'.outcome = .error (.unplaced (.stepLimit (count' + left + 1)))

/-- A step that ends one run ends the other in the same way. -/
theorem sameButCount_of_ended {count' : Nat} {writes' : List (Word × Byte)}
    {started' : List PlacedInstruction} (hended : m.step.2 ≠ .ok none) :
    SameButCount left count count'
      (continueRun (fun _ _ => false) left count m writes started)
      (continueRun (fun _ _ => false) left count' m writes' started') := by
  have hstep : m.step = (m.step.1, m.step.2) := rfl
  rw [continueRun_of_ended hstep hended, continueRun_of_ended hstep hended]
  exact ⟨rfl, .inl rfl⟩

/-- What a run has counted does not matter for what comes. -/
theorem continueRun_sameButCount (left count count' : Nat) (m : Machine)
    (writes writes' : List (Word × Byte)) (started started' : List PlacedInstruction) :
    SameButCount left count count'
      (continueRun (fun _ _ => false) left count m writes started)
      (continueRun (fun _ _ => false) left count' m writes' started') := by
  -- Both runs take the same step, so they end together or go on together.
  induction left generalizing count count' m writes writes' started started' with
  | zero =>
    by_cases hgoes : m.step.2 = .ok none
    · have hstep : m.step = (m.step.1, .ok none) := by rw [← hgoes]
      rw [continueRun_of_spent hstep rfl, continueRun_of_spent hstep rfl]
      exact ⟨rfl, .inr ⟨rfl, rfl⟩⟩
    · exact sameButCount_of_ended hgoes
  | succ left ih =>
    by_cases hgoes : m.step.2 = .ok none
    · have hstep : m.step = (m.step.1, .ok none) := by rw [← hgoes]
      rw [continueRun_succ hstep rfl, continueRun_succ hstep rfl]
      obtain ⟨hmachine, houtcome⟩ := ih (count + 1) (count' + 1) m.step.1 _ _ _ _
      rw [Nat.add_right_comm count, Nat.add_right_comm count'] at houtcome
      exact ⟨hmachine, houtcome⟩
    · exact sameButCount_of_ended hgoes

/-- After steps that go on, the rest of a run is a run. -/
theorem run_sameButCount (h : m.GoesOn (count + 1)) (left : Nat) :
    ((m.steppedTimes (count + 1)).run (left + 1)).machine =
        (m.run (count + 1 + (left + 1))).machine ∧
      (((m.steppedTimes (count + 1)).run (left + 1)).outcome =
          (m.run (count + 1 + (left + 1))).outcome ∨
        ((m.steppedTimes (count + 1)).run (left + 1)).outcome =
            .error (.unplaced (.stepLimit (left + 1))) ∧
          (m.run (count + 1 + (left + 1))).outcome =
            .error (.unplaced (.stepLimit (count + 1 + (left + 1))))) := by
  have hsum : count + 1 + (left + 1) = left + (count + 1) + 1 := by omega
  obtain ⟨writes, started, hrun⟩ := run_eq_continueRun left h
  -- The rest of the long run has a count already; it can show in the limit that is told only.
  have hsame := continueRun_sameButCount left 0 (count + 1) (m.steppedTimes (count + 1)) []
    writes [] started
  rw [← hrun, ← hsum] at hsame
  obtain ⟨hmachine, houtcome⟩ := hsame
  rw [Nat.zero_add, Nat.add_assoc (count + 1)] at houtcome
  refine ⟨hmachine.symm, ?_⟩
  rcases houtcome with houtcome | houtcome
  · exact .inl houtcome.symm
  · exact .inr houtcome

end Runs

/-- A run reports that its limit is used up exactly if every step up to the limit goes on. Then it
has taken that many steps, the machine is not stopped, and running from there with a second limit is
running once with the sum of both. If it is called off after the last of these steps, it ends
without an error. -/
theorem stepLimit_of_run (m : Machine) {limit more : Nat} (hlimit : 1 ≤ limit)
    (hmore : 1 ≤ more) :
    ((∃ problem, (m.run limit).outcome = .error problem ∧ problem.cause.kind = .stepLimit) ↔
      m.GoesOn limit) ∧
    (m.GoesOn limit →
      (m.run limit).machine = m.steppedTimes limit ∧
      (m.run limit).machine.steps = m.steps + limit ∧
      (m.run limit).machine.halt = none ∧
      ((m.run limit).machine.run more).machine = (m.run (limit + more)).machine ∧
      (((m.run limit).machine.run more).outcome = (m.run (limit + more)).outcome ∨
        ((m.run limit).machine.run more).outcome = .error (.unplaced (.stepLimit more)) ∧
          (m.run (limit + more)).outcome = .error (.unplaced (.stepLimit (limit + more)))) ∧
      ∀ cancel : Nat → Machine → Bool,
        (∀ n, 0 < n → n < limit → cancel n (m.steppedTimes n) = false) →
        cancel limit (m.steppedTimes limit) = true →
          (m.runUntil limit cancel).machine = m.steppedTimes limit ∧
          (m.runUntil limit cancel).outcome = .ok none) := by
  obtain ⟨count, rfl⟩ : ∃ count, limit = count + 1 := ⟨limit - 1, by omega⟩
  obtain ⟨left, rfl⟩ : ∃ left, more = left + 1 := ⟨more - 1, by omega⟩
  constructor
  · constructor
    · intro h
      obtain ⟨problem, houtcome, hkind⟩ := h
      -- Otherwise the run ends as some step does, and no step ends in this way.
      refine Classical.byContradiction fun hstops => ?_
      obtain ⟨n, hn, hgoes, hended⟩ := exists_ended hstops
      rw [run_of_ended hgoes hn hended] at houtcome
      exact (m.steppedTimes n).stepped.kind_ne_stepLimit houtcome hkind
    · intro h
      exact ⟨_, (run_of_goesOn h).2, rfl⟩
  · intro h
    obtain ⟨hmachine, -⟩ := run_of_goesOn h
    obtain ⟨hsame, houtcome⟩ := run_sameButCount h left
    rw [hmachine]
    refine ⟨rfl, h.steps, h.halt, hsame, houtcome, ?_⟩
    intro cancel hbefore hlast
    exact runUntil_of_cancelled h (fun n hpos hn => hbefore n hpos (Nat.lt_succ_of_le hn)) hlast

/-- A run cut off right before `END`, and then taken to it. -/
theorem stepLimit_of_run_end :
    1 ≤ 2 ∧ ∃ p, assemble "INCA\nINCA\nEND" = .ok p ∧ (start p).GoesOn 2 ∧
      ((start p).run 2).machine.steps = 2 ∧
      ((start p).run 2).outcome ≠ .ok (some .finished) ∧
      (((start p).run 2).machine.run 2).machine = ((start p).run 4).machine ∧
      ((start p).run 4).outcome = .ok (some .finished) := by
  obtain ⟨p, hp, htest⟩ := Except.exists_of_any (x := assemble "INCA\nINCA\nEND")
    (q := fun p => (List.range 2).all (fun n =>
        ((start p).steppedTimes n).step.2.toOption == some none) &&
      ((start p).run 4).outcome.toOption == some (some .finished)) (by decide +kernel)
  rw [Bool.and_eq_true, List.all_eq_true] at htest
  obtain ⟨hsteps, hfinished⟩ := htest
  have hgoes : (start p).GoesOn 2 := fun n hn =>
    Except.toOption_eq_some.mp (eq_of_beq (hsteps n (List.mem_range.mpr hn)))
  obtain ⟨hlimit, hcut⟩ := stepLimit_of_run (start p) (show 1 ≤ 2 by decide) (show 1 ≤ 2 by decide)
  obtain ⟨-, hcount, -, hresumed, -⟩ := hcut hgoes
  refine ⟨by decide, p, hp, hgoes, hcount, ?_, hresumed,
    Except.toOption_eq_some.mp (eq_of_beq hfinished)⟩
  obtain ⟨problem, hproblem, -⟩ := hlimit.mpr hgoes
  rw [hproblem]
  simp

end Machine
end Teach6809
