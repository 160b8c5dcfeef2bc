import Teach6809.Proofs.Debugger.Announced
import Teach6809.Proofs.Debugger.Effect
import Teach6809.Proofs.Simulator.Progress
import Teach6809.Proofs.Text.Blank

/-!
# Counts of executed instructions

`run` tells how far the step count of the machine has grown, `step` how many of its steps did not
fail, which is its progress. Main statement: whatever is stepped and run, the counts that are told
add up to the growth of the step count, and to one more if it was a `step` that came to the end
past the last instruction.
-/

namespace Teach6809

/-- Whether a command steps the program. -/
def Command.isStep : Command → Bool
  | .step _ => true
  | _ => false

/-- Whether a command executes the program. -/
def Command.executes : Command → Bool
  | .step _ | .run => true
  | _ => false

/-- Whether a line is read as a command of some kind. -/
def Command.isRead (kind : Command → Bool) (line : List Char) : Bool :=
  match read line with
  | .ok command => kind command
  | .error _ => false

namespace Session

/-- From one moment to another, the counts that are told are the growth of the step count and
`excess` more. -/
def Tells (s after : Session) (excess : Nat) : Prop :=
  ∃ grown, after.simulator.steps = s.simulator.steps + grown ∧
    after.console.announced = s.console.announced + grown + excess

variable {s t u : Session} {m : Machine} {excess more : Nat}

/-- What is told in two stretches adds up. -/
theorem Tells.trans (h : s.Tells t excess) (h' : t.Tells u more) : s.Tells u (excess + more) := by
  obtain ⟨grown, hsteps, htold⟩ := h
  obtain ⟨grown', hsteps', htold'⟩ := h'
  exact ⟨grown + grown', by omega, by omega⟩

/-! ## Steps -/

/-- Steps are told of afterwards: while they are taken, no count is told. -/
theorem announced_takeSteps (hdraw : s.draw.TellsNoCount) (left executed : Nat) :
    (s.takeSteps left executed).1.console.announced = s.console.announced := by
  fun_induction takeSteps s left executed with
  | case1 | case2 => rfl
  | case3 =>
    rename_i problem _
    exact (announced_report (by rwa [(says_take _ _).draw]) problem).trans (announced_take _ _)
  | case4 => exact (announced_say _ .always (by decide)).trans (announced_take _ _)
  | case5 =>
    rename_i ih
    exact (ih (by rwa [(says_take _ _).draw])).trans (announced_take _ _)

/-- Steps of an assembled program are counted as they make progress. -/
theorem takeSteps_of_machine (hs : s.simulator.Consistent) (hm : s.simulator.machine = some m)
    (left executed : Nat) :
    let result := s.takeSteps left executed
    ∃ n, result.1.simulator.machine = some (m.steppedTimes n) ∧
      (m.steppedTimes n).progress + executed = m.progress + result.2 := by
  induction left generalizing s m executed with
  | zero => exact ⟨0, hm, rfl⟩
  | succ left ih =>
    rw [takeSteps]
    by_cases hstatus : s.simulator.status = .halted
    · rw [if_pos hstatus]
      exact ⟨0, hm, rfl⟩
    · rw [if_neg hstatus]
      have hrunning : m.halt = none := hs.halt_of_status hm hstatus
      have hmachine := Simulator.machine_step hm hstatus
      cases houtcome : m.step.2 with
      | error problem =>
        -- A step that fails is the last one and is not counted.
        simp only [Simulator.answer_step_of_error hm hstatus houtcome]
        refine ⟨1, ?_, ?_⟩
        · rw [(says_report _ _).simulator, (says_take _ _).simulator]
          exact hmachine
        · show m.step.1.progress + executed = m.progress + executed
          rw [m.stepped.progress_of_error hrunning houtcome]
      | ok halt =>
        obtain ⟨view, hview⟩ := Simulator.answer_step_of_ok hm hstatus houtcome
        simp only [hview, if_neg (hs.status_ne hm)]
        have htaken := (s.says_take s.simulator.step).simulator
        obtain ⟨n, hafter, hprogress⟩ := ih (s := s.take s.simulator.step)
          (by rw [htaken]; exact hs.step) (by rw [htaken]; exact hmachine) (executed + 1)
        refine ⟨n + 1, hafter, ?_⟩
        have hone : m.step.1.progress = m.progress + 1 :=
          m.stepped.progress_of_ok hrunning houtcome
        show (m.step.1.steppedTimes n).progress + executed = _
        omega

/-- The first of the steps assembles the program if that has to be done, and is all. -/
theorem takeSteps_of_none (hs : s.simulator.Consistent) (hm : s.simulator.machine = none)
    (left executed : Nat) :
    let result := s.takeSteps left executed
    result.2 = executed ∧
      (result.1.simulator = s.simulator ∨ result.1.simulator = s.simulator.assemble.simulator) := by
  cases left with
  | zero => exact ⟨rfl, .inl rfl⟩
  | succ left =>
    have hstatus : s.simulator.status = .notAssembled := hs.notAssembled.mpr hm
    have hstep : s.simulator.step = s.simulator.assemble := by rw [Simulator.step, hm]
    rw [takeSteps, if_neg (by rw [hstatus]; decide), hstep]
    dsimp only
    have htaken := s.says_take s.simulator.assemble
    split
    · exact ⟨rfl, .inr (htaken.trans (says_report _ _)).simulator⟩
    · rw [if_pos hstatus]
      exact ⟨rfl, .inr (htaken.trans (says_say _ _ _)).simulator⟩

/-- The count of steps is told. -/
theorem tells_step (hdraw : s.draw.TellsNoCount) (hs : s.simulator.Consistent) (count : Nat) :
    s.Tells (s.execute (.step count))
      (s.simulator.overrun (s.execute (.step count)).simulator) := by
  have hannounced := announced_takeSteps hdraw count 0
  have htold : (s.execute (.step count)).console.announced =
      (s.takeSteps count 0).2 + (s.takeSteps count 0).1.console.announced :=
    announced_sayExecuted _ _
  have hsimulator : (s.execute (.step count)).simulator = (s.takeSteps count 0).1.simulator :=
    (says_sayExecuted _ _).simulator
  rw [Tells, htold, hsimulator]
  -- What the session tells is what it counted, so the count is compared with the steps taken.
  cases hm : s.simulator.machine with
  | none =>
    obtain ⟨hcount, hafter⟩ := takeSteps_of_none hs hm count 0
    have hquiet : (s.takeSteps count 0).1.simulator.steps = 0 ∧
        (s.takeSteps count 0).1.simulator.halt? = none := by
      rcases hafter with hsame | hassembled
      · rw [hsame]
        exact ⟨Simulator.steps_of_none hm, Simulator.halt?_of_none hm⟩
      · rw [hassembled]
        exact s.simulator.steps_assemble
    refine ⟨0, ?_, ?_⟩
    · rw [hquiet.1, Simulator.steps_of_none hm]
    · rw [hannounced, hcount, Simulator.overrun_of_ne (by simp [hquiet.2])]
      omega
  | some m =>
    obtain ⟨n, hafter, hprogress⟩ := takeSteps_of_machine hs hm count 0
    obtain ⟨grown, hgrown, htotal⟩ := m.progress_steppedTimes n
    refine ⟨grown, ?_, ?_⟩
    · rw [Simulator.steps_of_machine hm, Simulator.steps_of_machine hafter, hgrown]
    · rw [Simulator.overrun, Simulator.halt?_of_machine hm, Simulator.halt?_of_machine hafter,
        hannounced]
      omega

/-- A run is told of once it has come to its end, by the growth of the step count. -/
theorem exists_run (hdraw : s.draw.TellsNoCount) :
    ∃ told : Session, told.console.announced = s.console.announced ∧
      s.execute .run =
        told.sayExecuted (s.simulator.run.simulator.steps - s.simulator.steps) := by
  show ∃ told : Session, _ ∧ s.run = _
  unfold run
  dsimp only
  split
  · exact ⟨_, by rw [announced_report (by rwa [(says_take _ _).draw]), announced_take], rfl⟩
  · exact ⟨_, announced_take s _, rfl⟩

/-- A run in a session leads where a run of its simulator leads. -/
theorem simulator_run (s : Session) :
    (s.execute .run).simulator = s.simulator.run.simulator :=
  (s.says_execute .run).simulator

/-- A run tells the growth of the step count. -/
theorem tells_run (hdraw : s.draw.TellsNoCount) : s.Tells (s.execute .run) 0 := by
  have hle : s.simulator.steps ≤ s.simulator.run.simulator.steps := by
    cases hm : s.simulator.machine with
    | none =>
      rw [Simulator.steps_of_none hm]
      exact Nat.zero_le _
    | some m =>
      obtain ⟨n, hafter⟩ := Simulator.machine_runUntil hm fun _ => false
      rw [Simulator.run, Simulator.steps_of_machine hm, Simulator.steps_of_machine hafter]
      exact m.steps_le_steppedTimes n
  obtain ⟨told, hannounced, hrun⟩ := exists_run hdraw
  refine ⟨s.simulator.run.simulator.steps - s.simulator.steps, ?_, ?_⟩
  · rw [simulator_run]
    omega
  · rw [hrun, announced_sayExecuted, hannounced]
    omega

/-! ## Where steps and runs lead -/

/-- Steps keep a simulator consistent, whoever counts them. -/
theorem consistent_takeSteps {s : Simulator} (hs : s.Consistent) (left : Nat) :
    (s.takeSteps left).Consistent := by
  induction left generalizing s with
  | zero => exact hs
  | succ left ih =>
    rw [Simulator.takeSteps]
    split
    · exact hs
    · split
      · exact hs.step
      · split
        · exact hs.step
        · exact ih hs.step

/-- Commands that execute keep the simulator consistent. -/
theorem consistent_execute {command : Command} (hs : s.simulator.Consistent)
    (hcommand : command.executes = true) : (s.execute command).simulator.Consistent := by
  rw [(s.says_execute command).simulator]
  cases command with
  | step count => exact consistent_takeSteps hs count
  | run => exact hs.runUntil _
  | _ => cases hcommand

/-- Commands that execute take steps of an assembled program. -/
theorem machine_execute {command : Command} (hs : s.simulator.Consistent)
    (hm : s.simulator.machine = some m) (hcommand : command.executes = true) :
    ∃ n, (s.execute command).simulator.machine = some (m.steppedTimes n) := by
  cases command with
  | step count =>
    obtain ⟨n, hafter, -⟩ := takeSteps_of_machine hs hm count 0
    refine ⟨n, ?_⟩
    show ((s.takeSteps count 0).1.sayExecuted _).simulator.machine = _
    rw [(says_sayExecuted _ _).simulator, hafter]
  | run =>
    rw [simulator_run]
    exact Simulator.machine_runUntil hm _
  | _ => cases hcommand

/-- What a command that executes tells. -/
theorem tells_execute {command : Command} (hdraw : s.draw.TellsNoCount)
    (hs : s.simulator.Consistent) (hcommand : command.executes = true) :
    s.Tells (s.execute command)
      (if command.isStep then s.simulator.overrun (s.execute command).simulator else 0) := by
  cases command with
  | step count => exact tells_step hdraw hs count
  | run => exact tells_run hdraw
  | _ => cases hcommand

/-! ## Lines of commands -/

/-- A blank line is no command. -/
theorem isRead_of_allBlank {kind : Command → Bool} {line : List Char}
    (h : Text.allBlank line = true) : Command.isRead kind line = false := by
  have hname : CommandName.ofName? [] = none := by decide
  rw [Command.isRead, Command.read, Text.trim_eq_nil.mpr h]
  simp only [List.takeWhile_nil, hname]

/-- How far the counts that a line makes the session tell exceed the growth of the step count. -/
def overrunBy (s : Session) (line : List Char) : Nat :=
  if Command.isRead Command.isStep line then s.simulator.overrun (s.accept line).simulator else 0

/-- The same for several lines. -/
def overruns : Session → List (List Char) → Nat
  | _, [] => 0
  | s, line :: rest =>
    let after := s.accept line
    s.overrunBy line + if after.finished then 0 else after.overruns rest

/-- A line that executes is a command, and nothing but what it executes is told. -/
theorem accept_of_executes {line : List Char} (s : Session)
    (hline : Command.isRead Command.executes line = true) :
    ∃ command, command.executes = true ∧
      Command.isRead Command.isStep line = command.isStep ∧
      ((s.echo line).execute command).Says (s.accept line) ∧
      (s.accept line).console.announced = ((s.echo line).execute command).console.announced := by
  -- A blank line is no command, so it executes none.
  have hblank : Text.allBlank line = false := by
    by_contra hall
    rw [isRead_of_allBlank (Bool.not_eq_false _ ▸ hall)] at hline
    cases hline
  unfold Command.isRead at hline ⊢
  split at hline
  · rename_i command hread
    refine ⟨command, hline, rfl, ?_⟩
    unfold accept
    rw [hread, hblank]
    dsimp only
    rw [if_neg (by decide)]
    split
    · exact ⟨.refl _, rfl⟩
    · exact ⟨says_await _, announced_await _⟩
  · cases hline

variable {line : List Char} {lines : List (List Char)}

theorem consistent_accept (hs : s.simulator.Consistent)
    (hline : Command.isRead Command.executes line = true) :
    (s.accept line).simulator.Consistent := by
  obtain ⟨command, hexecutes, -, hsaid, -⟩ := s.accept_of_executes hline
  rw [hsaid.simulator]
  exact consistent_execute (by rwa [(s.says_echo line).simulator]) hexecutes

/-- A line that executes takes steps of an assembled program. -/
theorem machine_accept (hs : s.simulator.Consistent) (hm : s.simulator.machine = some m)
    (hline : Command.isRead Command.executes line = true) :
    ∃ n, (s.accept line).simulator.machine = some (m.steppedTimes n) := by
  obtain ⟨command, hexecutes, -, hsaid, -⟩ := s.accept_of_executes hline
  have hecho := (s.says_echo line).simulator
  rw [hsaid.simulator]
  exact machine_execute (by rwa [hecho]) (by rwa [hecho]) hexecutes

/-- What a line that executes tells. -/
theorem tells_accept (hdraw : s.draw.TellsNoCount) (hs : s.simulator.Consistent)
    (hline : Command.isRead Command.executes line = true) :
    s.Tells (s.accept line) (s.overrunBy line) := by
  obtain ⟨command, hexecutes, hstep, hsaid, hannounced⟩ := s.accept_of_executes hline
  have hecho := s.says_echo line
  have htells := tells_execute (s := s.echo line) (by rwa [hecho.draw]) (by rwa [hecho.simulator])
    hexecutes
  unfold Tells at htells ⊢
  rw [hecho.simulator, announced_echo] at htells
  rw [hsaid.simulator, hannounced, overrunBy, hstep, hsaid.simulator]
  exact htells

/-- A line that executes leaves the way of drawing alone. -/
theorem draw_accept (hline : Command.isRead Command.executes line = true) :
    (s.accept line).draw = s.draw := by
  obtain ⟨command, -, -, hsaid, -⟩ := s.accept_of_executes hline
  rw [hsaid.draw, ((s.echo line).says_execute command).draw]
  exact (s.says_echo line).draw

/-! ## Several lines -/

/-- Lines that execute take steps of an assembled program. -/
theorem machine_acceptAll (hs : s.simulator.Consistent) (hm : s.simulator.machine = some m)
    (hlines : ∀ line ∈ lines, Command.isRead Command.executes line = true) :
    ∃ n, (s.acceptAll lines).simulator.machine = some (m.steppedTimes n) := by
  induction lines generalizing s m with
  | nil => exact ⟨0, hm⟩
  | cons line rest ih =>
    have hline := hlines line List.mem_cons_self
    obtain ⟨n, hafter⟩ := machine_accept hs hm hline
    rw [acceptAll]
    split
    · exact ⟨n, hafter⟩
    · obtain ⟨k, hlast⟩ := ih (consistent_accept hs hline) hafter fun other hother =>
        hlines other (List.mem_cons_of_mem line hother)
      exact ⟨n + k, by rw [hlast, Machine.steppedTimes_add]⟩

/-- What lines that execute tell, by induction on the lines. -/
theorem tells_acceptAll (hdraw : s.draw.TellsNoCount) (hs : s.simulator.Consistent)
    (hlines : ∀ line ∈ lines, Command.isRead Command.executes line = true) :
    s.Tells (s.acceptAll lines) (s.overruns lines) := by
  induction lines generalizing s with
  | nil => exact ⟨0, rfl, rfl⟩
  | cons line rest ih =>
    have hline := hlines line List.mem_cons_self
    have hfirst := tells_accept hdraw hs hline
    rw [acceptAll, overruns]
    split
    · exact hfirst
    · exact hfirst.trans <| ih (by rwa [draw_accept hline]) (consistent_accept hs hline)
        fun other hother => hlines other (List.mem_cons_of_mem line hother)

/-- The counts exceed the growth of the step count by one at most, and only if the program came to
be exhausted. -/
theorem overruns_le (hs : s.simulator.Consistent)
    (hlines : ∀ line ∈ lines, Command.isRead Command.executes line = true) :
    s.overruns lines ≤ s.simulator.overrun (s.acceptAll lines).simulator := by
  induction lines generalizing s with
  | nil => exact Nat.zero_le _
  | cons line rest ih =>
    have hline := hlines line List.mem_cons_self
    have hrest := fun other hother => hlines other (List.mem_cons_of_mem line hother)
    have hfirst : s.overrunBy line ≤ s.simulator.overrun (s.accept line).simulator := by
      unfold overrunBy
      split
      · exact Nat.le_refl _
      · exact Nat.zero_le _
    have hafter := consistent_accept hs hline
    rw [acceptAll, overruns]
    split
    · exact hfirst
    · -- A machine that has run off its program stays so: this happens in one of the two parts only.
      refine Nat.le_trans (Nat.add_le_add hfirst (ih hafter hrest)) (Simulator.overrun_add_le ?_ ?_)
      · exact Simulator.halt?_of_steppedTimes fun m hm => machine_accept hs hm hline
      · exact Simulator.halt?_of_steppedTimes fun m hm => machine_acceptAll hafter hm hrest

/-- Whatever was done to a simulator, and however diagnostics are drawn as long as none reads like a
count: a run tells the growth of the step count and a command to step its growth, and one more if
the program ran past its last instruction. So do any lines of such commands together, and that one
more is told at most once, by a command to step. If two lots of lines both run an assembled program
until it halts, they tell the same but for that. -/
theorem counts_of_actions (settings : Settings) (actions : List Simulator.Action) (s : Session)
    (hreached : s.simulator = Simulator.reached settings actions)
    (hdraw : s.draw.TellsNoCount) :
    (∀ count, s.Tells (s.execute (.step count))
      (s.simulator.overrun (s.execute (.step count)).simulator)) ∧
    s.Tells (s.execute .run) 0 ∧
    ∀ lines, (∀ line ∈ lines, Command.isRead Command.executes line = true) →
      s.Tells (s.acceptAll lines) (s.overruns lines) ∧
      s.overruns lines ≤ s.simulator.overrun (s.acceptAll lines).simulator ∧
      ∀ others, (∀ line ∈ others, Command.isRead Command.executes line = true) →
        s.simulator.machine ≠ none → (s.acceptAll lines).simulator.halt? ≠ none →
        (s.acceptAll others).simulator.halt? ≠ none →
        (s.acceptAll lines).console.announced + s.overruns others =
          (s.acceptAll others).console.announced + s.overruns lines := by
  have hs : s.simulator.Consistent := by
    rw [hreached]
    exact Simulator.consistent_reached settings actions
  refine ⟨tells_step hdraw hs, tells_run hdraw, fun lines hlines =>
    ⟨tells_acceptAll hdraw hs hlines, overruns_le hs hlines, ?_⟩⟩
  intro others hothers hassembled hhalt hhalt'
  obtain ⟨m, hm⟩ := Option.ne_none_iff_exists'.mp hassembled
  obtain ⟨n, hafter⟩ := machine_acceptAll hs hm hlines
  obtain ⟨k, hafter'⟩ := machine_acceptAll hs hm hothers
  obtain ⟨grown, hgrown, htold⟩ := tells_acceptAll hdraw hs hlines
  obtain ⟨grown', hgrown', htold'⟩ := tells_acceptAll hdraw hs hothers
  -- Both lots of lines lead to the same machine, so the step count has grown by the same.
  rw [Simulator.halt?_of_machine hafter] at hhalt
  rw [Simulator.halt?_of_machine hafter'] at hhalt'
  have hsame := Machine.steppedTimes_eq_of_halted hhalt hhalt'
  rw [Simulator.steps_of_machine hafter, hsame] at hgrown
  rw [Simulator.steps_of_machine hafter'] at hgrown'
  omega

/-- A step and a run tell what one run tells. -/
theorem counts_of_actions_mixed :
    let simulator := Simulator.reached .default [.load "INCA\n END", .assemble]
    let s : Session :=
      { settings := .default, simulator, console := .new false false, tellsPosition := false
        echoes := false, finished := false }
    let mixed := ["step".toList, "run".toList]
    let alone := ["run".toList]
    s.overruns mixed = 0 ∧ s.overruns alone = 0 ∧
      (s.acceptAll mixed).console.announced = (s.acceptAll alone).console.announced := by
  intro simulator s mixed alone
  obtain ⟨-, -, hlines⟩ := counts_of_actions .default [.load "INCA\n END", .assemble] s rfl
    Drawing.tellsNoCount_brief
  obtain ⟨-, -, hsame⟩ := hlines mixed (by decide)
  have hhalted : s.simulator.machine ≠ none ∧ (s.acceptAll mixed).simulator.halt? ≠ none ∧
      (s.acceptAll alone).simulator.halt? ≠ none := by decide +kernel
  have htotal := hsame alone (by decide) hhalted.1 hhalted.2.1 hhalted.2.2
  have hexcess : s.overruns mixed = 0 ∧ s.overruns alone = 0 := by decide +kernel
  exact ⟨hexcess.1, hexcess.2, by omega⟩

/-- A branch past the last instruction: of two steps one executes, and both are told of. A run tells
of one. -/
theorem counts_of_actions_exhausted :
    let simulator := Simulator.reached .default [.load "BRA PAST\n END\nPAST:", .assemble]
    let s : Session :=
      { settings := .default, simulator, console := .new false false, tellsPosition := false
        echoes := false, finished := false }
    s.console.announced = 0 ∧ s.simulator.steps = 0 ∧
      (s.execute (.step 2)).console.announced = 2 ∧ (s.execute (.step 2)).simulator.steps = 1 ∧
      (s.execute .run).console.announced = 1 ∧ (s.execute .run).simulator.steps = 1 := by
  decide +kernel

end Session
end Teach6809
