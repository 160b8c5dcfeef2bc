import Teach6809.Proofs.Memory.Load
import Teach6809.Proofs.Simulator.Action

/-!
# Simulators are consistent

Source text, machine and status of a simulator are changed one by one, and fit together all the same
(`Simulator.Consistent`): there is a machine exactly if the status says so, its program is that of
the source text, and the status tells of every halt. Assembling, taking over a machine after a step
or run, and editing the machine each keep this. Main statement: so does every list of actions, and
an action that finds the source text not to assemble changes nothing.
-/

namespace Teach6809
namespace Simulator

/-- The parts of a simulator fit together. -/
structure Consistent (s : Simulator) : Prop where
  notAssembled : s.status = .notAssembled ↔ s.machine = none
  program : ∀ m, s.machine = some m → Teach6809.assemble s.source = .ok m.program
  ready : s.status = .ready → s.halt? = none ∧ s.steps = 0
  halted : s.halt? ≠ none → s.status = .halted

variable {s : Simulator} {m after : Machine}

/-- The halt of a simulator is that of its machine. -/
theorem halt?_of_machine (hm : s.machine = some m) : s.halt? = m.halt := by
  rw [halt?, hm]
  rfl

/-- The count of a simulator is that of its machine. -/
theorem steps_of_machine (hm : s.machine = some m) : s.steps = m.steps := by
  rw [steps, hm]
  rfl

/-! ## Steps and runs of an assembled simulator -/

/-- Unless the simulator is halted, its machine is stepped and taken over. -/
theorem step_of_machine (hm : s.machine = some m) (hstatus : s.status ≠ .halted) :
    s.step = s.settle m.step.1 m.step.2 m.step.1.writes m.starting?.toList := by
  rw [step, hm]
  exact if_neg hstatus

/-- A halted simulator answers with its view and does nothing. -/
theorem step_of_halted (hm : s.machine = some m) (hstatus : s.status = .halted) :
    s.step = s.silent (.ok s.snapshot) := by
  rw [step, hm]
  exact if_pos hstatus

/-- Unless the simulator is halted, its machine is run and taken over. -/
theorem runUntil_of_machine (hm : s.machine = some m) (hstatus : s.status ≠ .halted)
    (cancel : Nat → Bool) :
    let run := m.runUntil s.maxSteps fun count _ => cancel count
    s.runUntil cancel = s.settle run.machine run.outcome run.writes run.started := by
  rw [runUntil, hm]
  exact if_neg hstatus

namespace Consistent

/-! ## Ways to change a simulator -/

theorem clear (s : Simulator) : s.clear.Consistent :=
  ⟨⟨fun _ => rfl, fun _ => rfl⟩, fun _ hm => (nomatch hm), fun hready => (nomatch hready),
    fun hhalted => absurd rfl hhalted⟩

/-- With a machine for the source text, the status has to fit the halt. -/
theorem of_machine (hm : s.machine = some m)
    (hprogram : Teach6809.assemble s.source = .ok m.program) (hassembled : s.status ≠ .notAssembled)
    (hready : s.status = .ready → m.halt = none ∧ m.steps = 0)
    (hhalted : m.halt ≠ none → s.status = .halted) : s.Consistent := by
  refine ⟨⟨fun hnot => absurd hnot hassembled, ?_⟩, ?_, ?_, ?_⟩
  · intro hnone
    rw [hm] at hnone
    cases hnone
  · intro other hother
    rw [hm] at hother
    cases hother
    exact hprogram
  · rw [halt?_of_machine hm, steps_of_machine hm]
    exact hready
  · rw [halt?_of_machine hm]
    exact hhalted

/-- With a machine the status says that something is assembled. -/
theorem status_ne (hs : s.Consistent) (hm : s.machine = some m) : s.status ≠ .notAssembled := by
  intro hnot
  rw [hs.notAssembled.mp hnot] at hm
  cases hm

/-- A machine was not stopped as long as the simulator is not halted. -/
theorem halt_of_status (hs : s.Consistent) (hm : s.machine = some m)
    (hstatus : s.status ≠ .halted) : m.halt = none := by
  rw [← halt?_of_machine hm]
  exact Decidable.byContradiction fun hhalted => hstatus (hs.halted hhalted)

/-- A machine that keeps its program and its count of steps, and is not stopped anew, can take the
place of the one before. -/
theorem of_keeps (hs : s.Consistent) (hm : s.machine = some m) (hkeeps : m.Keeps after) :
    ({ s with machine := some after } : Simulator).Consistent := by
  have hready := hs.ready
  have hhalted := hs.halted
  rw [halt?_of_machine hm] at hready hhalted
  rw [steps_of_machine hm] at hready
  apply of_machine rfl
  · show Teach6809.assemble s.source = .ok after.program
    rw [hkeeps.program]
    exact hs.program m hm
  · exact hs.status_ne hm
  · -- A ready machine was not stopped before and is not stopped now.
    intro h
    obtain ⟨hhalt, hsteps⟩ := hready h
    refine ⟨?_, hkeeps.steps.trans hsteps⟩
    rcases hkeeps.halt with hnone | hsame
    · exact hnone
    · exact hsame.trans hhalt
  · intro h
    rcases hkeeps.halt with hnone | hsame
    · exact absurd hnone h
    · rw [hsame] at h
      exact hhalted h

/-- Taking over a machine after a step or run. -/
theorem settle {outcome : Machine.Outcome} {writes : List (Word × Byte)}
    {started : List PlacedInstruction}
    (hprogram : Teach6809.assemble s.source = .ok after.program)
    (hhalt : ∀ halt, outcome = .ok halt → after.halt = halt) :
    (s.settle after outcome writes started).simulator.Consistent := by
  cases outcome with
  | error problem =>
    exact of_machine rfl hprogram (fun hnot => nomatch hnot) (fun hready => nomatch hready)
      fun _ => rfl
  | ok halt =>
    have hafter := hhalt halt rfl
    cases halt with
    | none =>
      exact of_machine rfl hprogram (fun hnot => nomatch hnot) (fun hready => nomatch hready)
        fun hhalted => absurd hafter hhalted
    | some reason =>
      exact of_machine rfl hprogram (fun hnot => nomatch hnot) (fun hready => nomatch hready)
        fun _ => rfl

/-! ## Assembling, stepping, running -/

/-- Assembling makes a machine that is ready, or none. -/
theorem assemble (hs : s.Consistent) : s.assemble.simulator.Consistent := by
  unfold Simulator.assemble
  split
  · exact clear s
  · split
    · exact hs
    · rename_i p hp
      exact of_machine rfl hp (fun hnot => nomatch hnot) (fun _ => ⟨rfl, rfl⟩)
        fun hhalted => absurd rfl hhalted

/-- A step assembles, does nothing, or takes over a stepped machine. -/
theorem step (hs : s.Consistent) : s.step.simulator.Consistent := by
  cases hm : s.machine with
  | none =>
    rw [Simulator.step, hm]
    exact hs.assemble
  | some m =>
    by_cases hstatus : s.status = .halted
    · rw [step_of_halted hm hstatus]
      exact hs
    · rw [step_of_machine hm hstatus]
      apply settle
      · rw [m.stepped.program]
        exact hs.program m hm
      · intro halt houtcome
        exact m.stepped.halt houtcome

/-- A run does nothing, or takes over the machine that was run. -/
theorem runAssembled (hs : s.Consistent) (hm : s.machine = some m) (cancel : Nat → Bool) :
    (s.runAssembled m cancel).simulator.Consistent := by
  unfold Simulator.runAssembled
  split
  · exact hs
  · -- Every machine on the way has the program of the source text, also that before the last step.
    obtain ⟨last, hlast, hends⟩ := Machine.runUntil_endsWith
      (P := fun n => Teach6809.assemble s.source = .ok n.program)
      (fun n hn => by rw [n.stepped.program]; exact hn) (hs.program m hm) s.maxSteps
      fun count _ => cancel count
    apply settle
    · rw [hends.machine, last.stepped.program]
      exact hlast
    · intro halt houtcome
      exact hends.halt houtcome

theorem runUntil (hs : s.Consistent) (cancel : Nat → Bool) :
    (s.runUntil cancel).simulator.Consistent := by
  unfold Simulator.runUntil
  split
  · rename_i m hm
    exact hs.runAssembled hm cancel
  · -- Assembling comes first; if it gives no machine, that is all.
    dsimp only
    split
    · rename_i view m _ hm
      exact hs.assemble.runAssembled hm cancel
    · exact hs.assemble

/-! ## Editing the machine -/

/-- A machine that is taken back is ready. -/
theorem reset (hs : s.Consistent) : s.reset.simulator.Consistent := by
  unfold Simulator.reset
  split
  · rename_i m hm
    exact of_machine rfl (hs.program m hm) (fun hnot => nomatch hnot) (fun _ => ⟨rfl, rfl⟩)
      fun hhalted => absurd rfl hhalted
  · exact hs

/-- Moving the program counter clears the halt and the status together. -/
theorem setRegister (hs : s.Consistent) (r : Register) (value : Word) :
    (s.setRegister r value).simulator.Consistent := by
  unfold Simulator.setRegister
  split
  · exact hs
  · rename_i m hm
    by_cases hresumes : r = .pc ∧ s.status = .halted
    · -- The program counter was written, so the machine is not stopped any more.
      simp only [if_pos hresumes]
      obtain ⟨rfl, -⟩ := hresumes
      exact of_machine rfl (hs.program m hm) (fun hnot => nomatch hnot)
        (fun hready => nomatch hready) fun hhalted => absurd rfl hhalted
    · simp only [if_neg hresumes]
      exact hs.of_keeps hm (.set m r value)

/-- A line typed by hand stops no machine. -/
theorem evaluate (hs : s.Consistent) (line : String) : (s.evaluate line).1.Consistent := by
  unfold Simulator.evaluate
  split
  · exact hs
  · rename_i m hm
    exact hs.of_keeps hm (m.evaluate_keeps line)

theorem poke (hs : s.Consistent) (address : Word) (value : Byte) :
    (s.poke address value).Consistent := by
  cases hm : s.machine with
  | none =>
    rw [Simulator.poke, hm]
    show ({ s with machine := none } : Simulator).Consistent
    rw [← hm]
    exact hs
  | some m =>
    have hpoked : s.poke address value = { s with machine := some (m.poke address value) } := by
      rw [Simulator.poke, hm]
      rfl
    rw [hpoked]
    exact hs.of_keeps hm ⟨rfl, rfl, .inr rfl⟩

end Consistent

/-! ## All actions -/

/-- A file that cannot be loaded changes nothing. -/
theorem Consistent.loadFile (hs : s.Consistent) (contents : Option ByteArray) :
    (s.perform (.loadFile contents)).simulator.Consistent := by
  unfold Simulator.perform Simulator.loadFile
  cases contents with
  | none => exact hs
  | some bytes =>
    dsimp only
    cases String.fromUTF8? bytes with
    | none => exact hs
    | some source => exact .clear _

/-- Every action keeps a simulator consistent. -/
theorem Consistent.perform (hs : s.Consistent) (a : Action) :
    (s.perform a).simulator.Consistent := by
  cases a with
  | load source => exact .clear _
  | loadFile contents => exact hs.loadFile contents
  | assemble => exact hs.assemble
  | step => exact hs.step
  | run => exact hs.runUntil _
  | runUntil cancel => exact hs.runUntil cancel
  | reset => exact hs.reset
  | setRegister r value => exact hs.setRegister r value
  | setMaxSteps limit => exact ⟨hs.notAssembled, hs.program, hs.ready, hs.halted⟩
  | subscribe => exact ⟨hs.notAssembled, hs.program, hs.ready, hs.halted⟩
  | evaluate line =>
    have hafter := hs.evaluate line
    unfold Simulator.perform
    dsimp only
    split
    all_goals
      rename_i hevaluate
      rw [hevaluate] at hafter
      exact hafter
  | poke address value => exact hs.poke address value

/-- So a simulator is consistent whatever was done to it. -/
theorem consistent_reached (settings : Settings) (actions : List Action) :
    (reached settings actions).Consistent :=
  performAll_induction (Consistent.clear (new settings)) (fun _ a hs => hs.perform a) actions

/-! ## Source texts that assemble or do not -/

/-- What assembling comes to if there is no machine yet and the source text is in order. -/
theorem assemble_of_ok (hm : s.machine = none) {p : Program}
    (h : Teach6809.assemble s.source = .ok p) :
    s.assemble =
      (({ s with machine := some (.start p), status := .ready } : Simulator).publish [] []).ok := by
  unfold assemble
  rw [hm, h]

/-- A text that does not assemble has no machine. -/
theorem Consistent.machine_of_error (hs : s.Consistent) {problem : Diagnostic}
    (h : Teach6809.assemble s.source = .error problem) : s.machine = none := by
  cases hm : s.machine with
  | none => rfl
  | some m =>
    have hprogram := hs.program m hm
    rw [h] at hprogram
    cases hprogram

/-- A text that does not assemble is refused, and nothing else happens. -/
theorem assemble_of_error (hm : s.machine = none) {problem : Diagnostic}
    (h : Teach6809.assemble s.source = .error problem) :
    s.assemble = s.silent (.error problem) := by
  unfold assemble
  rw [hm, h]

/-- Every action that assembles comes to nothing if the source text does not assemble. -/
theorem perform_of_error (hm : s.machine = none) {problem : Diagnostic}
    (h : Teach6809.assemble s.source = .error problem) {a : Action} (ha : a.assembles = true) :
    s.perform a = s.silent (.refused problem) := by
  have hassemble := assemble_of_error hm h
  have hrun : ∀ cancel, s.runUntil cancel = s.silent (.error problem) := by
    intro cancel
    rw [runUntil, hm, hassemble]
    rfl
  cases a with
  | assemble =>
    show s.assemble.told = _
    rw [hassemble]
    rfl
  | step =>
    show s.step.told = _
    rw [step, hm, hassemble]
    rfl
  | run =>
    show (s.runUntil _).told = _
    rw [hrun]
    rfl
  | runUntil cancel =>
    show (s.runUntil cancel).told = _
    rw [hrun]
    rfl
  | _ => cases ha

/-- Without a machine, no other action is refused. -/
theorem perform_ne_refused (hm : s.machine = none) {a : Action} (ha : a.assembles = false)
    (problem : Diagnostic) : (s.perform a).answer ≠ .refused problem := by
  cases a with
  | assemble | step | run | runUntil cancel => cases ha
  | loadFile contents =>
    unfold perform
    dsimp only
    split <;> exact fun h => nomatch h
  | setRegister r value =>
    unfold perform
    dsimp only
    rw [setRegister, hm]
    exact fun h => nomatch h
  | evaluate line =>
    unfold perform
    dsimp only
    rw [evaluate, hm]
    exact fun h => nomatch h
  | load source | reset | setMaxSteps limit | subscribe | poke address value =>
    exact fun h => nomatch h

/-- Whatever was done to a simulator, its parts fit together, and its program store holds the bytes
of the program in zeros. If the source text does not assemble, every action that assembles says why,
and no action that is refused changes the simulator or sends a snapshot. -/
theorem consistent_of_actions (settings : Settings) (actions : List Action) :
    let s := reached settings actions
    s.Consistent ∧
    (∀ m, s.machine = some m → ∀ address : Word, m.program.store.read address =
      if origin.toNat ≤ address.toNat then
        (m.program.image[address.toNat - origin.toNat]?).getD 0
      else 0) ∧
    ∀ problem, Teach6809.assemble s.source = .error problem → ∀ a,
      (a.assembles = true → (s.perform a).answer = .refused problem) ∧
      ∀ other, (s.perform a).answer = .refused other →
        other = problem ∧ (s.perform a).simulator = s ∧ (s.perform a).published = [] := by
  intro s
  have hs : s.Consistent := consistent_reached settings actions
  refine ⟨hs, ?_, ?_⟩
  · intro m _ address
    rw [Program.store, Memory.read_load, Memory.read_empty]
  · intro problem hproblem a
    have hm := hs.machine_of_error hproblem
    cases ha : a.assembles with
    | true =>
      rw [perform_of_error hm hproblem ha]
      refine ⟨fun _ => rfl, ?_⟩
      intro other hother
      cases hother
      exact ⟨rfl, rfl, rfl⟩
    | false =>
      refine ⟨fun htrue => (nomatch htrue), ?_⟩
      intro other hother
      exact absurd hother (perform_ne_refused hm ha other)

/-- A program that is ready, that ran to its end, and then a text without `END`: running it is
refused. -/
theorem consistent_of_actions_refused :
    let actions : List Action := [.load "LDA #1\n END", .assemble]
    let later : List Action := [.run, .setRegister .pc 0xFE00, .step, .load "NOP"]
    let ready := reached .default actions
    let ended := reached .default (actions ++ [.run])
    let s := reached .default (actions ++ later)
    (ready.machine ≠ none ∧ ready.status = .ready ∧ ready.halt? = none ∧ ready.steps = 0) ∧
    (ended.halt? = some .finished ∧ ended.status = .halted ∧
      ∃ m, ended.machine = some m ∧ Teach6809.assemble ended.source = .ok m.program ∧
        m.program.store.read 0xFE01 = 1 ∧ m.program.store.read 0xFE03 = 0) ∧
    ∃ problem, Teach6809.assemble s.source = .error problem ∧ s.machine = none ∧
      (s.perform .run).answer = .refused problem ∧ (s.perform .run).simulator = s := by
  intro actions later ready ended s
  refine ⟨?_, ?_, ?_⟩
  · obtain ⟨hs, -, -⟩ := consistent_of_actions .default actions
    have hready : ready.status = .ready := by decide +kernel
    exact ⟨by decide +kernel, hready, hs.ready hready⟩
  · obtain ⟨hs, hstore, -⟩ := consistent_of_actions .default (actions ++ [.run])
    have hhalt : ended.halt? = some .finished := by decide +kernel
    have himage : ended.image? = some [0x86, 1, 0x3F] := by decide +kernel
    obtain ⟨m, hm, hbytes⟩ := Option.map_eq_some_iff.mp himage
    refine ⟨hhalt, hs.halted (by rw [show (reached _ _).halt? = _ from hhalt]; decide), m, hm,
      hs.program m hm, ?_, ?_⟩
    all_goals
      rw [hstore m hm, hbytes]
      rfl
  · obtain ⟨hs, -, hrefused⟩ := consistent_of_actions .default (actions ++ later)
    cases h : Teach6809.assemble s.source with
    | ok p =>
      have hfails : (Teach6809.assemble s.source).toOption.isSome = false := by decide +kernel
      rw [h] at hfails
      cases hfails
    | error problem =>
      obtain ⟨hanswer, hkept⟩ := hrefused problem h .run
      exact ⟨problem, rfl, hs.machine_of_error h, hanswer rfl, (hkept problem (hanswer rfl)).2.1⟩

end Simulator
end Teach6809
