import Teach6809.Proofs.Simulator.Mirror

/-!
# What observers are told

Whoever subscribes is to be told of everything a caller is told: the snapshot that an action answers
with goes to every observer, once, in the order in which they subscribed, and nothing comes after it
(`Reply.Broadcasts`). Main statement: every action keeps this in every state, but one: a step or run
of a halted simulator answers with a snapshot that no observer is sent. Steps and runs that fail are
told with a snapshot that says that the simulator is halted.
-/

namespace Teach6809

/-- What is delivered with a reply, to whom, in order. -/
def Reply.notices {α : Type} (r : Reply α) : List (Nat × Snapshot) :=
  r.published.flatMap r.simulator.deliveries

/-- The last that is delivered is a snapshot, to all of so many observers in order, and it was not
delivered before. -/
def Reply.Broadcasts {α : Type} (r : Reply α) (observers : Nat) (view : Snapshot) : Prop :=
  ∃ earlier, r.notices = earlier ++ (List.range observers).map (fun observer => (observer, view)) ∧
    ∀ observer, (observer, view) ∉ earlier

/-- The snapshot of an answer was published last, and once. -/
def Reply.TellsAnswer (r : Reply (Except Diagnostic Snapshot)) : Prop :=
  ∀ view, r.answer = .ok view → ∃ earlier, r.published = earlier ++ [view] ∧ view ∉ earlier

/-- Of an error a snapshot was published that says so. -/
def Reply.TellsFailure (r : Reply (Except Diagnostic Snapshot)) : Prop :=
  ∀ problem, r.answer = .error problem → ∃ view, r.published = [view] ∧ view.status = .halted

/-- Whether an action executes instructions. -/
def Simulator.Action.executes : Action → Bool
  | .step | .run | .runUntil _ => true
  | _ => false

/-! ## Deliveries -/

/-- What is published last is delivered last, and what is published once is delivered once. -/
theorem Reply.broadcasts_of_published {α : Type} {r : Reply α} {view : Snapshot}
    {earlier : List Snapshot} (hpublished : r.published = earlier ++ [view])
    (hnew : view ∉ earlier) : r.Broadcasts r.simulator.observers view := by
  refine ⟨earlier.flatMap r.simulator.deliveries, ?_, ?_⟩
  · rw [notices, hpublished, List.flatMap_append, List.flatMap_singleton]
    rfl
  · intro observer hmem
    obtain ⟨other, hother, hdelivered⟩ := List.mem_flatMap.mp hmem
    obtain ⟨n, -, hsame⟩ := List.mem_map.mp hdelivered
    cases hsame
    exact hnew hother

namespace Simulator

variable {s : Simulator} {m : Machine} {outcome : Machine.Outcome}
  {writes : List (Word × Byte)} {started : List PlacedInstruction}

/-- A view that is published is the answer. -/
theorem tellsAnswer_publish (s : Simulator) (writes : List (Word × Byte))
    (started : List PlacedInstruction) : (s.publish writes started).ok.TellsAnswer := by
  intro view hview
  cases hview
  exact ⟨[], rfl, List.not_mem_nil⟩

/-! ## Assembling, stepping, running -/

/-- Assembling tells the observers what it answers. -/
theorem tellsAnswer_assemble (s : Simulator) : s.assemble.TellsAnswer := by
  unfold assemble
  split
  · exact tellsAnswer_publish _ _ _
  · split
    · intro view hview
      cases hview
    · exact tellsAnswer_publish _ _ _

/-- Taking over a machine tells the observers what it answers. -/
theorem tellsAnswer_settle : (s.settle m outcome writes started).TellsAnswer := by
  cases outcome with
  | ok halt => exact tellsAnswer_publish _ _ _
  | error problem =>
    intro view hview
    cases hview

/-- A failure is told to the observers as a view of a halted machine. -/
theorem tellsFailure_settle : (s.settle m outcome writes started).TellsFailure := by
  cases outcome with
  | ok halt =>
    intro problem hproblem
    cases hproblem
  | error other =>
    intro problem _
    exact ⟨_, rfl, status_snapshotWith _ writes⟩

/-- A machine that is taken over after a step or run is not ready any more. -/
theorem ne_ready_of_settle {view : Snapshot}
    (h : view ∈ (s.settle m outcome writes started).published) : view.status ≠ .ready := by
  rcases outcome with problem | _ | reason
  all_goals
    obtain rfl := List.mem_singleton.mp h
    rw [status_snapshotWith]
    intro hready
    cases hready

/-- A step tells the observers what it answers, unless the simulator is halted. -/
theorem tellsAnswer_step (hstatus : s.status ≠ .halted) : s.step.TellsAnswer := by
  cases hm : s.machine with
  | none =>
    rw [step, hm]
    exact s.tellsAnswer_assemble
  | some m =>
    rw [step_of_machine hm hstatus]
    exact tellsAnswer_settle

/-- A step of an assembled program that fails is told. -/
theorem tellsFailure_step (hm : s.machine = some m) : s.step.TellsFailure := by
  by_cases hstatus : s.status = .halted
  · rw [step_of_halted hm hstatus]
    intro problem hproblem
    cases hproblem
  · rw [step_of_machine hm hstatus]
    exact tellsFailure_settle

/-- A run tells the observers what it answers, unless the simulator is halted. -/
theorem tellsAnswer_runAssembled (hstatus : s.status ≠ .halted) (m : Machine)
    (cancel : Nat → Bool) : (s.runAssembled m cancel).TellsAnswer := by
  rw [runAssembled, if_neg hstatus]
  exact tellsAnswer_settle

/-- A snapshot that a run publishes is not that of an assembly. -/
theorem ne_ready_of_runAssembled {view : Snapshot} {cancel : Nat → Bool}
    (h : view ∈ (s.runAssembled m cancel).published) : view.status ≠ .ready := by
  unfold runAssembled at h
  split at h
  · cases h
  · exact ne_ready_of_settle h

/-- Assembling that gives a machine says so in one snapshot. -/
theorem published_assemble (hm : s.assemble.simulator.machine = some m) :
    s.assemble.simulator.status = .ready ∧
      s.assemble.published = [s.assemble.simulator.snapshot] := by
  unfold assemble at hm ⊢
  split at hm
  · cases hm
  · rename_i hnone
    split at hm
    · rw [silent, hnone] at hm
      cases hm
    · exact ⟨rfl, rfl⟩

/-- A run without a machine publishes the snapshot of the assembly before its own, and the two
differ. -/
theorem tellsAnswer_runUntil (hstatus : s.status ≠ .halted) (cancel : Nat → Bool) :
    (s.runUntil cancel).TellsAnswer := by
  unfold runUntil
  split
  · rename_i m _
    exact tellsAnswer_runAssembled hstatus m cancel
  · dsimp only
    split
    · rename_i m _ hm
      obtain ⟨hready, hfirst⟩ := published_assemble hm
      have hrunnable : s.assemble.simulator.status ≠ .halted := by
        rw [hready]
        decide
      intro view hview
      obtain ⟨earlier, hpublished, hnew⟩ :=
        tellsAnswer_runAssembled hrunnable m cancel view hview
      -- What was sent when the text was assembled has another status, so it is not this snapshot.
      have hmem : view ∈ (s.assemble.simulator.runAssembled m cancel).published := by
        rw [hpublished]
        exact List.mem_append_right earlier (List.mem_singleton_self view)
      have hother : view.status ≠ .ready := ne_ready_of_runAssembled hmem
      refine ⟨s.assemble.published ++ earlier, ?_, ?_⟩
      · show s.assemble.published ++ _ = _
        rw [hpublished, List.append_assoc]
      · rw [hfirst, List.mem_append, List.mem_singleton]
        rintro (rfl | hmem)
        · exact hother ((status_snapshotWith _ []).trans hready)
        · exact hnew hmem
    · exact s.tellsAnswer_assemble

/-- A run of an assembled program that fails is told. -/
theorem tellsFailure_runUntil (hm : s.machine = some m) (cancel : Nat → Bool) :
    (s.runUntil cancel).TellsFailure := by
  rw [runUntil, hm]
  show (s.runAssembled m cancel).TellsFailure
  unfold runAssembled
  split
  · intro problem hproblem
    cases hproblem
  · exact tellsFailure_settle

/-! ## Actions -/

/-- Only an answer is told as a view. -/
theorem ok_of_told_view {r : Reply (Except Diagnostic Snapshot)} {view : Snapshot}
    (h : r.told.answer = .view view) : r.answer = .ok view := by
  unfold Reply.told Reply.withAnswer at h
  dsimp only at h
  split at h
  · rename_i hanswer
    cases h
    exact hanswer
  · cases h

/-- Only a diagnostic is told as a refusal. -/
theorem error_of_told_refused {r : Reply (Except Diagnostic Snapshot)} {problem : Diagnostic}
    (h : r.told.answer = .refused problem) : r.answer = .error problem := by
  unfold Reply.told Reply.withAnswer at h
  dsimp only at h
  split at h
  · cases h
  · rename_i hanswer
    cases h
    exact hanswer

/-- Observers are told of an answer as its caller is. -/
theorem broadcasts_told {r : Reply (Except Diagnostic Snapshot)} {view : Snapshot} {observers : Nat}
    (hanswer : r.TellsAnswer) (hobservers : r.simulator.observers = observers)
    (h : r.told.answer = .view view) : r.told.Broadcasts observers view := by
  obtain ⟨earlier, hpublished, hnew⟩ := hanswer view (ok_of_told_view h)
  rw [← hobservers]
  exact Reply.broadcasts_of_published (r := r.told) hpublished hnew

/-- Observers are told of a failure as its caller is. -/
theorem notices_told {r : Reply (Except Diagnostic Snapshot)} {problem : Diagnostic}
    {observers : Nat} (hfailure : r.TellsFailure) (hobservers : r.simulator.observers = observers)
    (h : r.told.answer = .refused problem) :
    ∃ view, view.status = .halted ∧
      r.told.notices = (List.range observers).map fun observer => (observer, view) := by
  obtain ⟨view, hpublished, hhalted⟩ := hfailure problem (error_of_told_refused h)
  refine ⟨view, hhalted, ?_⟩
  show r.published.flatMap r.simulator.deliveries = _
  rw [hpublished, List.flatMap_singleton, deliveries, hobservers]

theorem broadcasts_reset (s : Simulator) : s.reset.Broadcasts s.observers s.reset.answer := by
  unfold reset
  split
  all_goals exact Reply.broadcasts_of_published (List.nil_append _).symm List.not_mem_nil

/-- Writing a register of a machine tells every observer. -/
theorem broadcasts_setRegister {r : Register} {value : Word} {view : Snapshot}
    (h : (s.setRegister r value).answer = some view) :
    (s.setRegister r value).Broadcasts s.observers view := by
  unfold setRegister at h ⊢
  split at h
  · cases h
  · cases h
    exact Reply.broadcasts_of_published (List.nil_append _).symm List.not_mem_nil

/-- Every action sends the snapshot it answers with, unless it is to execute and the simulator is
halted. -/
theorem broadcasts_perform {a : Action} {view : Snapshot}
    (ha : a.executes = true → s.status ≠ .halted) (h : (s.perform a).answer = .view view) :
    (s.perform a).Broadcasts s.observers view := by
  cases a with
  | assemble => exact broadcasts_told s.tellsAnswer_assemble s.observers_assemble h
  | step => exact broadcasts_told (tellsAnswer_step (ha rfl)) s.observers_step h
  | run =>
    exact broadcasts_told (tellsAnswer_runUntil (ha rfl) fun _ => false)
      (s.observers_runUntil fun _ => false) h
  | runUntil cancel =>
    exact broadcasts_told (tellsAnswer_runUntil (ha rfl) cancel) (s.observers_runUntil cancel) h
  | reset =>
    cases h
    exact s.broadcasts_reset
  | setRegister r value =>
    have hanswer : (s.setRegister r value).answer = some view := by
      unfold perform Reply.withAnswer at h
      dsimp only at h
      split at h
      · rename_i hanswer
        cases h
        exact hanswer
      · cases h
    exact broadcasts_setRegister hanswer
  | loadFile contents =>
    unfold perform at h
    dsimp only at h
    split at h <;> cases h
  | evaluate line =>
    unfold perform at h
    dsimp only at h
    split at h <;> cases h
  -- These answer without a snapshot, so there is none to be sent.
  | load _ | setMaxSteps _ | subscribe | poke _ _ => cases h

/-- An execution that is refused is told to every observer as a view that is halted. -/
theorem notices_of_refused {a : Action} {problem : Diagnostic} (ha : a.executes = true)
    (hm : s.machine = some m) (h : (s.perform a).answer = .refused problem) :
    ∃ view, view.status = .halted ∧
      (s.perform a).notices = (List.range s.observers).map fun observer => (observer, view) := by
  cases a with
  | step => exact notices_told (tellsFailure_step hm) s.observers_step h
  | run =>
    exact notices_told (tellsFailure_runUntil hm fun _ => false)
      (s.observers_runUntil fun _ => false) h
  | runUntil cancel =>
    exact notices_told (tellsFailure_runUntil hm cancel) (s.observers_runUntil cancel) h
  | _ => cases ha

/-- Steps and runs of a halted simulator change nothing and tell nobody but the caller. -/
theorem perform_of_halted {a : Action} (ha : a.executes = true) (hm : s.machine = some m)
    (hstatus : s.status = .halted) : s.perform a = s.silent (.view s.snapshot) := by
  have hrun : ∀ cancel, s.runUntil cancel = s.silent (.ok s.snapshot) := by
    intro cancel
    rw [runUntil, hm]
    exact if_pos hstatus
  cases a with
  | step =>
    show s.step.told = _
    rw [step_of_halted hm hstatus]
    rfl
  | run =>
    show (s.runUntil _).told = _
    rw [hrun]
    rfl
  | runUntil cancel =>
    show (s.runUntil cancel).told = _
    rw [hrun]
    rfl
  | _ => cases ha

/-- Whatever was done to a simulator, what an action answers with goes to every observer, in the
order of subscription and after everything else, unless a step or run is asked of a halted
simulator: that leaves it as it is and answers with its view, and no observer is sent any. A step
or run of an assembled program that fails sends one snapshot, of a halted simulator. -/
theorem broadcast_of_actions (settings : Settings) (actions : List Action) (a : Action) :
    let s := reached settings actions
    let reply := s.perform a
    (∀ view, reply.answer = .view view → (a.executes = true → s.status ≠ .halted) →
      reply.Broadcasts s.observers view) ∧
    (a.executes = true → s.status = .halted →
      reply.answer = .view s.snapshot ∧ reply.simulator = s ∧ reply.notices = []) ∧
    ∀ problem, reply.answer = .refused problem → a.executes = true → s.machine ≠ none →
      ∃ view, view.status = .halted ∧
        reply.notices = (List.range s.observers).map fun observer => (observer, view) := by
  intro s reply
  have hs : s.Consistent := consistent_reached settings actions
  refine ⟨fun view hview ha => broadcasts_perform ha hview, ?_, ?_⟩
  · intro ha hstatus
    have hassembled : s.machine ≠ none := by
      intro hnone
      rw [hs.notAssembled.mpr hnone] at hstatus
      cases hstatus
    obtain ⟨m, hm⟩ := Option.ne_none_iff_exists'.mp hassembled
    have hreply : reply = s.silent (.view s.snapshot) := perform_of_halted ha hm hstatus
    rw [hreply]
    exact ⟨rfl, rfl, rfl⟩
  · intro problem hproblem ha hassembled
    obtain ⟨m, hm⟩ := Option.ne_none_iff_exists'.mp hassembled
    exact notices_of_refused ha hm hproblem

/-- A run that stores and is cut off, with two observers, of whom the second came after the program
was assembled: both are told, in order, as they are told of the step before. -/
theorem broadcast_of_actions_limited :
    let actions : List Action :=
      [.load "L: STA $10\n BRA L\n END", .setMaxSteps 3, .subscribe, .assemble, .subscribe]
    let s := reached .default actions
    (∃ view, (s.perform .step).answer = .view view ∧ view.status = .running ∧
      (s.perform .step).Broadcasts 2 view) ∧
    ∃ problem view, (s.perform .run).answer = .refused problem ∧ view.status = .halted ∧
      (s.perform .run).notices = [(0, view), (1, view)] := by
  intro actions s
  have hobservers : s.observers = 2 := by decide +kernel
  have hready : s.status = .ready := by decide +kernel
  have hassembled : s.machine ≠ none := by decide +kernel
  refine ⟨?_, ?_⟩
  · let view := s.step.simulator.snapshotWith [(0x10, 0)]
    have hok : s.step.answer = .ok view := Except.toOption_eq_some.mp (by decide +kernel)
    have hanswer : (s.perform .step).answer = .view view := by
      show s.step.told.answer = _
      simp only [Reply.told, Reply.withAnswer, hok]
    obtain ⟨htold, -, -⟩ := broadcast_of_actions .default actions .step
    refine ⟨view, hanswer, by decide +kernel, ?_⟩
    rw [← hobservers]
    exact htold _ hanswer fun _ => by rw [hready]; decide
  · cases hrun : s.run.answer with
    | ok view =>
      have hfails : s.run.answer.toOption.isSome = false := by decide +kernel
      rw [hrun] at hfails
      cases hfails
    | error problem =>
      have hanswer : (s.perform .run).answer = .refused problem := by
        show s.run.told.answer = _
        simp only [Reply.told, Reply.withAnswer, hrun]
      obtain ⟨-, -, hfailure⟩ := broadcast_of_actions .default actions .run
      obtain ⟨view, hhalted, hnotices⟩ := hfailure problem hanswer rfl hassembled
      exact ⟨problem, view, hanswer, hhalted, by rw [hnotices, hobservers]; rfl⟩

/-- A step after the end answers with a snapshot that its observer is never sent. -/
theorem broadcast_of_actions_halted :
    let s := reached .default [.load "END", .subscribe, .run]
    s.observers = 1 ∧ s.step.answer.toOption = some s.snapshot ∧ s.step.notices = [] := by
  decide +kernel

end Simulator
end Teach6809
