import Teach6809.Proofs.Debugger.Session

/-!
# What commands do

A session adds to a simulator what it says about it. What a command does to the simulator can be
told without a session (`Simulator.carryOut`). Main statement: `says_execute`, that a session does
just this, that only `quit` ends it, and that everything else is talk.
-/

namespace Teach6809

/-! ## Without a session -/

namespace Simulator

/-- The simulator after up to the given number of steps. The first step of a program that is not
assembled assembles it, and is the last. -/
def takeSteps (s : Simulator) : Nat → Simulator
  | 0 => s
  | left + 1 =>
    if s.status = .halted then s
    else
      match s.step.answer with
      | .error _ => s.step.simulator
      | .ok _ =>
        if s.status = .notAssembled then s.step.simulator else s.step.simulator.takeSteps left

/-- The simulator after a command. -/
def carryOut (s : Simulator) : Command → Simulator
  | .step count => s.takeSteps count
  | .run => s.run.simulator
  | .reset => s.reset.simulator
  | .assemble => s.assemble.simulator
  | .set register value => (s.setRegister register value).simulator
  | .eval instruction => (s.evaluate instruction).1
  | .help | .registers | .memory _ _ | .program | .quit => s

end Simulator

/-! ## In a session -/

namespace Session

/-- Steps that a session takes lead where they lead without one. -/
theorem says_takeSteps (s : Session) (left executed : Nat) :
    ({ s with simulator := s.simulator.takeSteps left } : Session).Says
      (s.takeSteps left executed).1 := by
  induction left generalizing s executed with
  | zero => exact .refl s
  | succ left ih =>
    rw [takeSteps, Simulator.takeSteps]
    by_cases hhalted : s.simulator.status = .halted
    · rw [if_pos hhalted, if_pos hhalted]
      exact .refl s
    · rw [if_neg hhalted, if_neg hhalted]
      dsimp only
      have htaken := s.says_take s.simulator.step
      cases s.simulator.step.answer with
      | error problem => exact htaken.trans (says_report _ _)
      | ok snapshot =>
        dsimp only
        by_cases hnew : s.simulator.status = .notAssembled
        · rw [if_pos hnew, if_pos hnew]
          exact htaken.trans (says_say _ _ _)
        · rw [if_neg hnew, if_neg hnew]
          obtain ⟨hsimulator, hfinished, hdraw⟩ := ih (s.take s.simulator.step) (executed + 1)
          exact ⟨by rw [hsimulator, htaken.simulator], hfinished.trans htaken.finished,
            hdraw.trans htaken.draw⟩

/-- A run in a session is one without. -/
theorem says_run (s : Session) :
    ({ s with simulator := s.simulator.run.simulator } : Session).Says s.run := by
  have htaken := s.says_take s.simulator.run
  unfold run
  dsimp only
  split
  · exact (htaken.trans (says_report _ _)).trans (says_sayExecuted _ _)
  · exact htaken.trans (says_sayExecuted _ _)

/-- Assembling in a session is assembling without one. -/
theorem says_assemble (s : Session) :
    ({ s with simulator := s.simulator.assemble.simulator } : Session).Says s.assemble := by
  have htaken := s.says_take s.simulator.assemble
  unfold assemble
  dsimp only
  split
  · exact htaken.trans (says_report _ _)
  · split
    · exact htaken.trans (says_say _ _ _)
    · exact ⟨htaken.simulator, htaken.finished, htaken.draw⟩

/-- Without a machine the simulator has no register to write, and stays as it is. -/
theorem says_setRegister (s : Session) (register : Register) (value : Word) :
    ({ s with simulator := (s.simulator.setRegister register value).simulator } : Session).Says
      (s.setRegister register value) := by
  have htaken := s.says_take (s.simulator.setRegister register value)
  unfold setRegister
  dsimp only
  split
  · rename_i hanswer
    unfold Simulator.setRegister at hanswer ⊢
    split at hanswer
    · exact s.says_say _ _
    · cases hanswer
  · exact ⟨htaken.simulator, htaken.finished, htaken.draw⟩

/-- A line typed by hand does in a session what it does without one. -/
theorem says_evaluate (s : Session) (instruction : String) :
    ({ s with simulator := (s.simulator.evaluate instruction).1 } : Session).Says
      (s.evaluate instruction) := by
  unfold evaluate Simulator.evaluate
  cases s.simulator.machine with
  | none => exact s.says_say _ _
  | some m =>
    dsimp only
    cases (m.evaluate instruction).2 with
    | error problem => exact says_report _ _
    | ok halt =>
      have hwrites := says_sayWrites
        { s with simulator := { s.simulator with machine := some (m.evaluate instruction).1 } }
        (m.evaluate instruction).1.writes
      exact ⟨hwrites.simulator, hwrites.finished, hwrites.draw⟩

/-- A command does to the simulator what it does without a session, and only `quit` ends one. -/
theorem says_execute (s : Session) (command : Command) :
    ({ s with
        simulator := s.simulator.carryOut command
        finished := s.finished || decide (command = .quit) } : Session).Says
      (s.execute command) := by
  -- Of all commands only `quit` has an effect that is not on the simulator.
  by_cases hquit : command = .quit
  · subst hquit
    exact ⟨rfl, by simp [execute], rfl⟩
  · rw [decide_eq_false hquit, Bool.or_false]
    cases command with
    | quit => exact absurd rfl hquit
    | help => exact s.says_say _ _
    | step count => exact (s.says_takeSteps count 0).trans (says_sayExecuted _ _)
    | run => exact s.says_run
    | reset =>
      have htaken := s.says_take s.simulator.reset
      exact ⟨htaken.simulator, htaken.finished, htaken.draw⟩
    | assemble => exact s.says_assemble
    | registers => exact ⟨rfl, rfl, rfl⟩
    | memory | program =>
      unfold execute
      dsimp only
      split <;> exact ⟨rfl, rfl, rfl⟩
    | set register value => exact s.says_setRegister register value
    | eval instruction => exact s.says_evaluate instruction

end Session
end Teach6809
