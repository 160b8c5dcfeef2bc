import Teach6809.Proofs.Simulator.Fresh

/-!
# Running is stepping

A run settles the simulator once, after its last step, and collects stores while it goes on. Steps
settle it one by one, and each sends its stores; `Simulator.walk` is stepping several times. Main
statement: a run that is called off after some number of steps leaves everything as a walk of that
length does, wherever it ends.

The stores agree as well if the machine has not stopped before. It can have: a machine that is run
behind the simulator stops without the simulator noticing. Such a machine takes no step, so a run
has no stores to collect; a step sends those that are still noted in the machine.
-/

namespace Teach6809

/-- The diagnostic of something that failed. -/
def problemOf? {α : Type} : Except Diagnostic α → Option Diagnostic
  | .ok _ => none
  | .error problem => some problem

/-- What is left of stepping a simulator several times. -/
structure Walk where
  simulator : Simulator
  /-- The diagnostic that ended the walk, if one did. -/
  problem : Option Diagnostic
  /-- The stores of all snapshots that were sent, in order. -/
  writes : List (Word × Byte)

namespace Simulator

/-- Steps a simulator the given number of times, or until it is halted or a step fails. -/
def walk : Nat → Simulator → Walk
  | 0, s => { simulator := s, problem := none, writes := [] }
  | k + 1, s =>
    let reply := s.step
    let writes := reply.published.flatMap fun view => view.writes
    match reply.answer with
    | .error problem => { simulator := reply.simulator, problem := some problem, writes }
    | .ok _ =>
      if reply.simulator.status = .halted then
        { simulator := reply.simulator, problem := none, writes }
      else
        let rest := walk k reply.simulator
        { rest with writes := writes ++ rest.writes }

variable {s : Simulator} {m after : Machine} {outcome : Machine.Outcome} {k : Nat}

/-! ## Snapshots of a step or run -/

/-- What is sent and answered when a machine is taken over. -/
theorem settle_view (s : Simulator) (m : Machine) (outcome : Machine.Outcome)
    (writes : List (Word × Byte)) (started : List PlacedInstruction) :
    ∃ view : Snapshot, view.writes = writes ∧
      (s.settle m outcome writes started).published = [view] ∧
      (s.settle m outcome writes started).answer =
        (problemOf? outcome).elim (.ok view) .error := by
  cases outcome with
  | ok halt => exact ⟨_, writes_snapshotWith _ writes, rfl, rfl⟩
  | error problem => exact ⟨_, writes_snapshotWith _ writes, rfl, rfl⟩

/-- Taking over a machine that has ended halts the simulator. -/
theorem settle_of_ended (s : Simulator) (m : Machine) (hended : outcome ≠ .ok none)
    (writes : List (Word × Byte)) (started : List PlacedInstruction) :
    (s.settle m outcome writes started).simulator =
      { s with machine := some m, status := .halted } := by
  rcases outcome with problem | _ | reason
  · rfl
  · exact absurd rfl hended
  · rfl

/-! ## The steps of a walk -/

/-- A step that stops the machine or fails ends the walk. -/
theorem walk_of_ended (hm : s.machine = some m) (hstatus : s.status ≠ .halted)
    (hstep : m.step = (after, outcome)) (hended : outcome ≠ .ok none) :
    s.walk (k + 1) =
      { simulator := { s with machine := some after, status := .halted }
        problem := problemOf? outcome
        writes := after.writes } := by
  obtain ⟨view, hwrites, hpublished, hanswer⟩ :=
    s.settle_view after outcome after.writes m.starting?.toList
  have hsettled := s.settle_of_ended after hended after.writes m.starting?.toList
  rw [walk, step_of_machine hm hstatus, hstep]
  simp only [hpublished, hanswer, hsettled, List.flatMap_singleton, hwrites, if_true]
  cases outcome <;> rfl

/-- After any other step the walk goes on. -/
theorem walk_of_running (hm : s.machine = some m) (hstatus : s.status ≠ .halted)
    (hstep : m.step = (after, .ok none)) :
    s.walk (k + 1) =
      let rest := walk k { s with machine := some after, status := .running }
      { rest with writes := after.writes ++ rest.writes } := by
  obtain ⟨view, hwrites, hpublished, hanswer⟩ :=
    s.settle_view after (.ok none) after.writes m.starting?.toList
  rw [walk, step_of_machine hm hstatus, hstep]
  simp only [hpublished, hanswer, List.flatMap_singleton, hwrites]
  exact if_neg (show ¬ Status.running = .halted by decide)

/-! ## Runs -/

/-- A simulator that takes over the machine after a run is left as a walk leaves it. The run has
collected the given stores before. -/
structure Agrees (s : Simulator) (run : Run) (walk : Walk) (before : List (Word × Byte)) :
    Prop where
  simulator :
    (s.settle run.machine run.outcome run.writes run.started).simulator = walk.simulator
  problem : problemOf? run.outcome = walk.problem
  writes : run.writes = before ++ walk.writes

variable {cancel : Nat → Bool} {left count : Nat} {writes : List (Word × Byte)}
  {started : List PlacedInstruction}

/-- The step that ends a run has no stores for it to collect. -/
theorem agrees_of_ended (hm : s.machine = some m) (hstatus : s.status ≠ .halted)
    (hrunning : m.halt = none) (hstep : m.step = (after, outcome)) (hended : outcome ≠ .ok none) :
    s.Agrees (Machine.continueRun (fun n _ => cancel n) left count m writes started)
      (s.walk (k + 1)) writes.reverse := by
  have hstepped := m.stepped
  rw [hstep] at hstepped
  rw [Machine.continueRun_of_ended hstep hended, walk_of_ended hm hstatus hstep hended]
  refine ⟨s.settle_of_ended after hended _ _, rfl, ?_⟩
  show writes.reverse = writes.reverse ++ after.writes
  rw [hstepped.writes hrunning hended, List.append_nil]

/-- A run that is called off after some steps goes through the steps of a walk of that length. -/
theorem agrees_continueRun (hm : s.machine = some m) (hstatus : s.status ≠ .halted)
    (hrunning : m.halt = none) (hleft : k ≤ left) (hcancel : cancel (count + (k + 1)) = true)
    (hbefore : ∀ j < k, cancel (count + (j + 1)) = false) :
    s.Agrees (Machine.continueRun (fun n _ => cancel n) left count m writes started)
      (s.walk (k + 1)) writes.reverse := by
  induction k generalizing s m left count writes started with
  | zero =>
    cases hstep : m.step with
    | mk after outcome =>
      by_cases hended : outcome = .ok none
      · subst hended
        -- The last step of both: the run is called off, the walk has no step left.
        rw [Machine.continueRun_of_cancelled hstep hcancel, walk_of_running hm hstatus hstep]
        refine ⟨rfl, rfl, ?_⟩
        show writes.reverse ++ after.writes = writes.reverse ++ (after.writes ++ [])
        rw [List.append_nil]
      · exact agrees_of_ended hm hstatus hrunning hstep hended
  | succ k ih =>
    cases hstep : m.step with
    | mk after outcome =>
      by_cases hended : outcome = .ok none
      · subst hended
        have hnext : after.halt = none := by
          have hstepped := m.stepped
          rw [hstep] at hstepped
          exact hstepped.halt rfl
        obtain ⟨left, rfl⟩ := Nat.exists_eq_add_of_le' (Nat.lt_of_lt_of_le k.succ_pos hleft)
        let next : Simulator := { s with machine := some after, status := .running }
        -- The run goes on with the count and the stores after this step.
        have hrest : next.Agrees
            (Machine.continueRun (fun n _ => cancel n) left (count + 1) after
              (after.writes.reverse ++ writes) (m.starting?.toList ++ started))
            (next.walk (k + 1)) (after.writes.reverse ++ writes).reverse := by
          apply ih rfl (show Status.running ≠ .halted by decide) hnext
            (Nat.le_of_succ_le_succ hleft)
          · rw [Nat.add_assoc, Nat.add_comm 1]
            exact hcancel
          · intro j hj
            rw [Nat.add_assoc, Nat.add_comm 1]
            exact hbefore (j + 1) (Nat.succ_lt_succ hj)
        rw [Machine.continueRun_succ hstep (hbefore 0 k.succ_pos),
          walk_of_running hm hstatus hstep]
        refine ⟨hrest.simulator, hrest.problem, ?_⟩
        rw [hrest.writes, List.reverse_append, List.reverse_reverse, List.append_assoc]
      · exact agrees_of_ended hm hstatus hrunning hstep hended

/-- A simulator that is not halted and was not stopped behind its back runs as it steps. -/
theorem runUntil_eq_walk (hm : s.machine = some m) (hstatus : s.status ≠ .halted)
    (hrunning : m.halt = none) (hk : 1 ≤ k) (hlimit : k ≤ s.maxSteps) (hcancel : cancel k = true)
    (hbefore : ∀ j, 1 ≤ j → j < k → cancel j = false) :
    (s.runUntil cancel).simulator = (s.walk k).simulator ∧
    ∃ view : Snapshot, view.writes = (s.walk k).writes ∧
      (s.runUntil cancel).published = [view] ∧
      (s.runUntil cancel).answer = (s.walk k).problem.elim (.ok view) .error := by
  obtain ⟨k, rfl⟩ := Nat.exists_eq_add_of_le' hk
  have hagrees : s.Agrees (m.runUntil s.maxSteps fun count _ => cancel count)
      (s.walk (k + 1)) [] :=
    agrees_continueRun hm hstatus hrunning (Nat.le_sub_one_of_lt hlimit)
      (by rw [Nat.zero_add]; exact hcancel)
      (by
        intro j hj
        rw [Nat.zero_add]
        exact hbefore (j + 1) j.succ_pos (Nat.succ_lt_succ hj))
  rw [runUntil_of_machine hm hstatus]
  refine ⟨hagrees.simulator, ?_⟩
  rw [← hagrees.problem, show (s.walk (k + 1)).writes = _ from hagrees.writes.symm]
  exact s.settle_view _ _ _ _

/-- A machine that was stopped behind the simulator stays as it is, and the simulator notices that.
A step sends the stores that are noted in the machine, a run none. -/
theorem runUntil_of_stopped {reason : Halt} (hm : s.machine = some m)
    (hstatus : s.status ≠ .halted) (hstopped : m.halt = some reason) (hk : 1 ≤ k)
    (cancel : Nat → Bool) :
    (s.runUntil cancel).simulator = (s.walk k).simulator ∧
    (s.walk k).simulator = { s with status := .halted } ∧ (s.walk k).writes = m.writes ∧
    ∃ view : Snapshot, view.writes = [] ∧
      (s.runUntil cancel).published = [view] ∧
      (s.runUntil cancel).answer = (s.walk k).problem.elim (.ok view) .error := by
  obtain ⟨k, rfl⟩ := Nat.exists_eq_add_of_le' hk
  have hstep : m.step = (m, .ok (some reason)) := Machine.step_of_halted hstopped
  have hended : (.ok (some reason) : Machine.Outcome) ≠ .ok none := fun h => nomatch h
  rw [runUntil_of_machine hm hstatus, Machine.runUntil, Machine.continueRun_of_ended hstep hended,
    walk_of_ended hm hstatus hstep hended]
  exact ⟨s.settle_of_ended m hended _ _, by rw [← hm], rfl, s.settle_view _ _ _ _⟩

/-- Whatever an assembled simulator that is ready or running holds, a run that is called off after
some steps leaves the same machine, status and diagnostic as so many steps. If the machine has not
stopped before, the snapshot of the run has the stores of these steps in order; that is so after
any actions on a simulator. If it has, which only somebody who acts on the machine itself can bring
about, the machine stays as it is; the run has no stores and the steps repeat those that the machine
did last. -/
theorem runUntil_agrees (s : Simulator) (m : Machine) (cancel : Nat → Bool) (k : Nat)
    (hm : s.machine = some m) (hstatus : s.status = .ready ∨ s.status = .running) (hk : 1 ≤ k)
    (hlimit : k ≤ s.maxSteps) (hcancel : cancel k = true)
    (hbefore : ∀ j, 1 ≤ j → j < k → cancel j = false) :
    (s.runUntil cancel).simulator = (s.walk k).simulator ∧
    (∃ view : Snapshot, (s.runUntil cancel).published = [view] ∧
      (s.runUntil cancel).answer = (s.walk k).problem.elim (.ok view) .error ∧
      (m.halt = none → view.writes = (s.walk k).writes) ∧
      (m.halt ≠ none → (s.walk k).simulator = { s with status := .halted } ∧
        view.writes = [] ∧ (s.walk k).writes = m.writes)) ∧
    ∀ settings actions, s = reached settings actions → m.halt = none := by
  have hgoes : s.status ≠ .halted := by
    rcases hstatus with hready | hrunning
    · rw [hready]
      decide
    · rw [hrunning]
      decide
  have hreached : ∀ settings actions, s = reached settings actions → m.halt = none := by
    rintro settings actions rfl
    exact (consistent_reached settings actions).halt_of_status hm hgoes
  cases hhalt : m.halt with
  | none =>
    obtain ⟨hsimulator, view, hwrites, hpublished, hanswer⟩ :=
      runUntil_eq_walk hm hgoes hhalt hk hlimit hcancel hbefore
    exact ⟨hsimulator, ⟨view, hpublished, hanswer, fun _ => hwrites, fun h => absurd rfl h⟩,
      fun _ _ _ => rfl⟩
  | some reason =>
    obtain ⟨hsimulator, hnoticed, hsteps, view, hwrites, hpublished, hanswer⟩ :=
      runUntil_of_stopped hm hgoes hhalt hk cancel
    refine ⟨hsimulator, ⟨view, hpublished, hanswer, fun h => absurd h (Option.some_ne_none reason),
      fun _ => ⟨hnoticed, hwrites, hsteps⟩⟩, fun settings actions h => ?_⟩
    rw [hreached settings actions h] at hhalt
    cases hhalt

/-- Five steps of a loop that stores, after one step, a register written and an edit. -/
theorem runUntil_agrees_loop :
    let s := reached .default
      [.load "LOOP: INCA\n STA $20\n STB $21\n BRA LOOP\n END", .assemble, .step, .setRegister .b 7,
        .poke 0x20 0xFF]
    s.status = .running ∧ 5 ≤ s.maxSteps ∧
    (s.walk 5).writes = [(0x20, 1), (0x21, 7), (0x20, 2)] ∧
    (s.runUntil fun count => 5 ≤ count).simulator = (s.walk 5).simulator ∧
    ∃ view : Snapshot, view.writes = (s.walk 5).writes ∧
      (s.runUntil fun count => 5 ≤ count).published = [view] := by
  intro s
  have hstatus : s.status = .running := by decide +kernel
  have hlimit : 5 ≤ s.maxSteps := by decide +kernel
  have hassembled : s.machine.isSome = true := by decide +kernel
  obtain ⟨m, hm⟩ := Option.isSome_iff_exists.mp hassembled
  obtain ⟨hsimulator, ⟨view, hpublished, -, hwrites, -⟩, hreached⟩ :=
    runUntil_agrees s m (fun count => 5 ≤ count) 5 hm (.inr hstatus) (by decide) hlimit (by decide)
      (fun j _ hj => by simpa using hj)
  exact ⟨hstatus, hlimit, by decide +kernel, hsimulator, view, hwrites (hreached _ _ rfl),
    hpublished⟩

/-- A program that is run to its end behind the simulator, and a store typed there. The simulator is
still ready: a step sends this store, a run sends none. -/
theorem runUntil_agrees_behind :
    let s := (new .default).makeAll
      [.action (.load "INCA\n END"), .action .assemble, .behind (.runUntil 10 fun _ _ => false),
        .behind (.evaluate "STA $20")]
    s.machine.isSome = true ∧ s.status = .ready ∧ 1 ≤ s.maxSteps ∧
      (s.walk 1).writes = [(0x20, 1)] ∧
      (s.runUntil fun count => 1 ≤ count).published.map Snapshot.writes = [[]] := by
  decide +kernel

end Simulator
end Teach6809
