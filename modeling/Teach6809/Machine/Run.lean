import Teach6809.Machine

/-!
# Runs

A run takes steps until the machine stops, a caller calls it off, or the step limit is used up.
After every step that does not stop the machine the caller is asked first and the limit is looked
at second; so at least one step is taken, and a limit of zero is a limit of one. A run keeps the
stores of the steps it went on from, and the instructions it started, both in order.
-/

namespace Teach6809

/-- What a run leaves behind. -/
structure Run where
  machine : Machine
  /-- The diagnostic or halt that ended the run; no halt if it was called off. -/
  outcome : Machine.Outcome
  /-- The stores of every step after which the run could go on. -/
  writes : List (Word × Byte)
  /-- The instructions that were started. -/
  started : List PlacedInstruction

namespace Machine

/-- Goes on with a run that has taken `count` steps and may take `left + 1` more. The stores and
instructions so far are kept latest first. -/
def continueRun (cancel : Nat → Machine → Bool) :
    (left count : Nat) → Machine → List (Word × Byte) → List PlacedInstruction → Run
  | left, count, m, writes, started =>
    -- An instruction that faults was started too, so it is noted before the step.
    let started := m.starting?.toList ++ started
    let finish (m : Machine) (outcome : Outcome) (writes : List (Word × Byte)) : Run :=
      { machine := m, outcome, writes := writes.reverse, started := started.reverse }
    match m.step with
    | (after, .error problem) => finish after (.error problem) writes
    | (after, .ok (some reason)) => finish after (.ok (some reason)) writes
    | (after, .ok none) =>
      let writes := after.writes.reverse ++ writes
      if cancel (count + 1) after then finish after (.ok none) writes
      else
        match left with
        | 0 => finish after (.error (.unplaced (.stepLimit (count + 1)))) writes
        | left + 1 => continueRun cancel left (count + 1) after writes started

/-- Runs until the machine stops, the limit is reached or `cancel` is true of the number of steps
taken and the machine after them. -/
def runUntil (m : Machine) (limit : Nat) (cancel : Nat → Machine → Bool) : Run :=
  continueRun cancel (limit - 1) 0 m [] []

/-- Runs until the machine stops or the limit is reached. -/
def run (m : Machine) (limit : Nat) : Run := m.runUntil limit fun _ _ => false

end Machine
end Teach6809
