import Teach6809.Proofs.Simulator.Consistent

/-!
# Starting afresh

What is done to a simulator can leave traces in its machine and its status. Taking the machine back
to its start, assembling again, or loading a source text removes them all: what is left depends on
the source text and the step limit only, and on how many observers there are, which no reply shows
(`Simulator.unobserved`). Main statement: afterwards every reply is that of a new simulator with
this text and this limit, whatever is done, also to the machine behind the simulator.
-/

namespace Teach6809

/-- Taking a machine back restores everything that can have changed. -/
theorem Machine.reset_performAll (p : Program) (actions : List Machine.Action) :
    ((start p).performAll actions).reset = start p := by
  have hprogram : ((start p).performAll actions).program = p :=
    (start p).program_performAll actions
  rw [reset, hprogram]
  rfl

namespace Simulator

/-! ## Behind the simulator -/

/-- What the holder of a simulator can do: an action of the simulator, or an action on the machine
behind it, which the simulator does not notice. -/
inductive Move where
  | action (a : Action)
  | behind (a : Machine.Action)

/-- What the caller of an execution is told. -/
def Answer.ofOutcome : Machine.Outcome → Answer
  | .ok halt => .executed halt
  | .error problem => .refused problem

/-- What the caller of an action on a machine is told. -/
def told (m : Machine) : Machine.Action → Answer
  | .step => .ofOutcome m.step.2
  | .runUntil limit cancel => .ofOutcome (m.runUntil limit cancel).outcome
  | .evaluate line => .ofOutcome (m.evaluate line).2
  | .set _ _ | .poke _ _ | .reset => .nothing

/-- The reply to a move. -/
def make (s : Simulator) : Move → Reply Answer
  | .action a => s.perform a
  | .behind a =>
    match s.machine with
    | none => s.silent .nothing
    | some m => { s with machine := some (m.perform a) }.silent (told m a)

/-- The simulator after several moves. -/
def makeAll (s : Simulator) (moves : List Move) : Simulator :=
  moves.foldl (fun s a => (s.make a).simulator) s

/-! ## Replies -/

/-- A simulator without its observers. -/
def unobserved (s : Simulator) : Simulator := { s with observers := 0 }

/-- Everything else there is to see is still there. -/
theorem seen_unobserved (s : Simulator) :
    s.unobserved.snapshot = s.snapshot ∧ s.unobserved.image? = s.image? ∧
      s.unobserved.halt? = s.halt? ∧ s.unobserved.steps = s.steps :=
  ⟨rfl, rfl, rfl, rfl⟩

end Simulator

/-- A reply without the observers of its simulator. -/
def Reply.unobserved {α : Type} (r : Reply α) : Reply α :=
  { r with simulator := r.simulator.unobserved }

namespace Simulator

/-- The replies to several moves, but for observers. Each holds the answer or diagnostic, the
snapshots that were published, and the simulator with its machine. -/
def replies : Simulator → List Move → List (Reply Answer)
  | _, [] => []
  | s, a :: rest => (s.make a).unobserved :: replies (s.make a).simulator rest

variable {s t : Simulator} {later : List Move}

/-! ## Observers make no difference -/

theorem settle_unobserved (s : Simulator) (m : Machine) (outcome : Machine.Outcome)
    (writes : List (Word × Byte)) (started : List PlacedInstruction) :
    s.unobserved.settle m outcome writes started =
      (s.settle m outcome writes started).unobserved := by
  cases outcome <;> rfl

/-- Assembling goes on without observers as with them. -/
theorem assemble_unobserved (s : Simulator) : s.unobserved.assemble = s.assemble.unobserved := by
  obtain ⟨source, _ | m, status, maxSteps, observers⟩ := s
  · unfold assemble
    dsimp only [unobserved]
    cases Teach6809.assemble source <;> rfl
  · rfl

/-- So does a step. -/
theorem step_unobserved (s : Simulator) : s.unobserved.step = s.step.unobserved := by
  cases hm : s.machine with
  | none =>
    have hm' : s.unobserved.machine = none := hm
    rw [step, step, hm, hm']
    exact s.assemble_unobserved
  | some m =>
    have hm' : s.unobserved.machine = some m := hm
    by_cases hstatus : s.status = .halted
    · rw [step_of_halted hm hstatus, step_of_halted hm' hstatus]
      rfl
    · rw [step_of_machine hm hstatus, step_of_machine hm' hstatus]
      exact s.settle_unobserved ..

theorem runAssembled_unobserved (s : Simulator) (m : Machine) (cancel : Nat → Bool) :
    s.unobserved.runAssembled m cancel = (s.runAssembled m cancel).unobserved := by
  by_cases hstatus : s.status = .halted
  · have hstatus' : s.unobserved.status = .halted := hstatus
    rw [runAssembled, runAssembled, if_pos hstatus, if_pos hstatus']
    rfl
  · have hstatus' : s.unobserved.status ≠ .halted := hstatus
    rw [runAssembled, runAssembled, if_neg hstatus, if_neg hstatus']
    exact s.settle_unobserved ..

/-- So does a run, also one that assembles first. -/
theorem runUntil_unobserved (s : Simulator) (cancel : Nat → Bool) :
    s.unobserved.runUntil cancel = (s.runUntil cancel).unobserved := by
  cases hm : s.machine with
  | none =>
    have hm' : s.unobserved.machine = none := hm
    rw [runUntil, runUntil, hm, hm', assemble_unobserved]
    obtain ⟨first, answer, published, started⟩ := s.assemble
    dsimp only [Reply.unobserved]
    cases answer with
    | error problem => rfl
    | ok view =>
      -- What is run is the machine of the first reply, and forgetting observers leaves it alone.
      cases hfirst : first.machine with
      | none =>
        have hfirst' : first.unobserved.machine = none := hfirst
        rw [hfirst']
      | some m =>
        have hfirst' : first.unobserved.machine = some m := hfirst
        rw [hfirst']
        dsimp only
        rw [runAssembled_unobserved]
        rfl
  | some m =>
    have hm' : s.unobserved.machine = some m := hm
    rw [runUntil, runUntil, hm, hm']
    exact s.runAssembled_unobserved m cancel

theorem told_of_unobserved {r r' : Reply (Except Diagnostic Snapshot)} (h : r' = r.unobserved) :
    r'.told.unobserved = r.told.unobserved := by
  rw [h]
  rfl

/-- The reply to a move is the same without observers. -/
theorem make_unobserved (s : Simulator) (a : Move) :
    (s.unobserved.make a).unobserved = (s.make a).unobserved := by
  cases a with
  | behind a => obtain ⟨source, _ | m, status, maxSteps, observers⟩ := s <;> rfl
  | action a =>
    cases a with
    | assemble => exact told_of_unobserved s.assemble_unobserved
    | step => exact told_of_unobserved s.step_unobserved
    | run => exact told_of_unobserved (s.runUntil_unobserved _)
    | runUntil cancel => exact told_of_unobserved (s.runUntil_unobserved cancel)
    | reset | setRegister r value =>
      obtain ⟨source, _ | m, status, maxSteps, observers⟩ := s <;> rfl
    | evaluate line =>
      obtain ⟨source, _ | m, status, maxSteps, observers⟩ := s
      · rfl
      · unfold make perform evaluate
        dsimp only [unobserved]
        rcases m.evaluate line with ⟨after, problem | halt⟩ <;> rfl
    | loadFile contents =>
      unfold make perform loadFile
      cases contents with
      | none => rfl
      | some bytes =>
        dsimp only
        cases String.fromUTF8? bytes <;> rfl
    -- Subscribing adds an observer, so the observers have to be forgotten once more afterwards.
    | load source | setMaxSteps limit | subscribe | poke address value => rfl

/-- Replies are the same if the first is, and so are those that follow it. -/
theorem replies_cons {a b : Move} (h : (s.make a).unobserved = (t.make b).unobserved)
    (hlater : (s.make a).simulator.replies later = (t.make b).simulator.replies later) :
    s.replies (a :: later) = t.replies (b :: later) := by
  rw [replies, replies, h, hlater]

/-- What simulators reply does not depend on their observers. -/
theorem replies_eq (h : s.unobserved = t.unobserved) (moves : List Move) :
    s.replies moves = t.replies moves := by
  induction moves generalizing s t with
  | nil => rfl
  | cons a rest ih =>
    have hreply : (s.make a).unobserved = (t.make a).unobserved := by
      rw [← s.make_unobserved, h, t.make_unobserved]
    exact replies_cons hreply (ih (congrArg Reply.simulator hreply))

/-- Moves with the same reply are followed by the same replies. -/
theorem replies_cons_eq {a b : Move} (h : (s.make a).unobserved = (t.make b).unobserved)
    (later : List Move) : s.replies (a :: later) = t.replies (b :: later) :=
  replies_cons h (replies_eq (congrArg Reply.simulator h) later)

/-! ## What every simulator is founded on -/

/-- The machine executes what the source text assembles to, and without one nothing counts as
assembled. Unlike `Consistent`, this is kept also by what is done behind the simulator. -/
structure Founded (s : Simulator) : Prop where
  notAssembled : s.machine = none → s.status = .notAssembled
  program : ∀ m, s.machine = some m → Teach6809.assemble s.source = .ok m.program

namespace Founded

variable {m after : Machine}

theorem clear (s : Simulator) : s.clear.Founded := ⟨fun _ => rfl, fun _ hm => nomatch hm⟩

/-- A machine for the source text is all that is needed. -/
theorem of_machine (hm : s.machine = some m)
    (hprogram : Teach6809.assemble s.source = .ok m.program) : s.Founded := by
  refine ⟨fun hnone => ?_, fun other hother => ?_⟩
  · rw [hm] at hnone
    cases hnone
  · rw [hm] at hother
    cases hother
    exact hprogram

/-- No action on the machine changes its program. -/
theorem program_perform (hs : s.Founded) (hm : s.machine = some m) (a : Machine.Action) :
    Teach6809.assemble s.source = .ok (m.perform a).program := by
  rw [m.program_perform]
  exact hs.program m hm

/-- A machine that is taken over brings its program with it. -/
theorem settle {outcome : Machine.Outcome} {writes : List (Word × Byte)}
    {started : List PlacedInstruction}
    (hprogram : Teach6809.assemble s.source = .ok after.program) :
    (s.settle after outcome writes started).simulator.Founded := by
  cases outcome <;> exact of_machine rfl hprogram

theorem assemble (hs : s.Founded) : s.assemble.simulator.Founded := by
  unfold Simulator.assemble
  split
  · exact clear s
  · split
    · exact hs
    · rename_i p hp
      exact of_machine rfl hp

/-- No step changes the program. -/
theorem step (hs : s.Founded) : s.step.simulator.Founded := by
  cases hm : s.machine with
  | none =>
    rw [Simulator.step, hm]
    exact hs.assemble
  | some m =>
    by_cases hstatus : s.status = .halted
    · rw [step_of_halted hm hstatus]
      exact hs
    · rw [step_of_machine hm hstatus]
      exact settle (hs.program_perform hm .step)

theorem runAssembled (hs : s.Founded) (hm : s.machine = some m) (cancel : Nat → Bool) :
    (s.runAssembled m cancel).simulator.Founded := by
  unfold Simulator.runAssembled
  split
  · exact hs
  · exact settle (hs.program_perform hm (.runUntil s.maxSteps fun count _ => cancel count))

/-- A run that assembles first is founded on what it assembles. -/
theorem runUntil (hs : s.Founded) (cancel : Nat → Bool) :
    (s.runUntil cancel).simulator.Founded := by
  unfold Simulator.runUntil
  split
  · rename_i m hm
    exact hs.runAssembled hm cancel
  · dsimp only
    split
    · rename_i view m _ hm
      exact hs.assemble.runAssembled hm cancel
    · exact hs.assemble

/-- A file that is loaded discards the machine, and any other changes nothing. -/
theorem loadFile (hs : s.Founded) (contents : Option ByteArray) :
    (s.perform (.loadFile contents)).simulator.Founded := by
  unfold Simulator.perform Simulator.loadFile
  cases contents with
  | none => exact hs
  | some bytes =>
    dsimp only
    cases String.fromUTF8? bytes with
    | none => exact hs
    | some source => exact .clear _

/-- A line typed by hand does not change the program. -/
theorem evaluate (hs : s.Founded) (line : String) :
    (s.perform (.evaluate line)).simulator.Founded := by
  obtain ⟨source, _ | m, status, maxSteps, observers⟩ := s
  · exact hs
  · have hprogram : Teach6809.assemble source = .ok (m.evaluate line).1.program :=
      hs.program_perform rfl (.evaluate line)
    unfold Simulator.perform Simulator.evaluate
    dsimp only
    generalize m.evaluate line = evaluated at hprogram
    obtain ⟨after, problem | halt⟩ := evaluated <;> exact of_machine rfl hprogram

/-- Every action keeps a simulator founded. -/
theorem perform (hs : s.Founded) (a : Action) : (s.perform a).simulator.Founded := by
  cases a with
  | load source => exact .clear _
  | loadFile contents => exact hs.loadFile contents
  | assemble => exact hs.assemble
  | step => exact hs.step
  | run => exact hs.runUntil _
  | runUntil cancel => exact hs.runUntil cancel
  | evaluate line => exact hs.evaluate line
  | setMaxSteps limit | subscribe => exact ⟨hs.notAssembled, hs.program⟩
  | reset | setRegister r value | poke address value =>
    obtain ⟨source, _ | m, status, maxSteps, observers⟩ := s
    · exact hs
    · exact of_machine rfl (hs.program m rfl)

/-- So does everything that is done behind it. -/
theorem make (hs : s.Founded) (a : Move) : (s.make a).simulator.Founded := by
  cases a with
  | action a => exact hs.perform a
  | behind a =>
    obtain ⟨source, _ | m, status, maxSteps, observers⟩ := s
    · exact hs
    · exact of_machine rfl (hs.program_perform rfl a)

/-- Whatever is done keeps a simulator founded. -/
theorem makeAll (hs : s.Founded) (moves : List Move) : (s.makeAll moves).Founded := by
  unfold Simulator.makeAll
  induction moves generalizing s with
  | nil => exact hs
  | cons a rest ih => exact ih (hs.make a)

end Founded

/-! ## Starting afresh -/

/-- A new simulator with a step limit and a source text. -/
def fresh (settings : Settings) (maxSteps : Nat) (source : String) : Simulator :=
  ((new settings).setMaxSteps maxSteps).loadSource source

variable {m : Machine}

/-- Without a machine nothing is left of what was done. -/
theorem Founded.unobserved_of_none (hs : s.Founded) (hm : s.machine = none) (settings : Settings) :
    s.unobserved = fresh settings s.maxSteps s.source := by
  have hstatus := hs.notAssembled hm
  obtain ⟨source, machine, status, maxSteps, observers⟩ := s
  cases hm
  cases hstatus
  rfl

/-- Assembling the source text of an assembled simulator once more gives a new machine. -/
theorem Founded.assemble_of_none (hs : s.Founded) (hm : s.machine = some m) (t : Simulator)
    (hsource : t.source = s.source) (ht : t.machine = none) :
    t.assemble =
      (({ t with machine := some (.start m.program), status := .ready } : Simulator).publish
        [] []).ok :=
  Simulator.assemble_of_ok ht (hsource ▸ hs.program m hm)

/-- Taking the machine back has the reply of assembling afresh. -/
theorem Founded.reset_fresh (hs : s.Founded) (hm : s.machine = some m) (settings : Settings) :
    (s.make (.action .reset)).unobserved =
      ((fresh settings s.maxSteps s.source).make (.action .assemble)).unobserved := by
  show _ = (fresh settings s.maxSteps s.source).assemble.told.unobserved
  rw [hs.assemble_of_none hm (fresh ..) rfl rfl]
  obtain ⟨source, machine, status, maxSteps, observers⟩ := s
  cases hm
  rfl

/-- Assembling twice has the reply of assembling afresh. -/
theorem Founded.reassemble_fresh (hs : s.Founded) (hm : s.machine = some m) (settings : Settings) :
    ((s.make (.action .assemble)).simulator.make (.action .assemble)).unobserved =
      ((fresh settings s.maxSteps s.source).make (.action .assemble)).unobserved := by
  have hcleared : s.assemble.simulator = s.clear := by
    rw [Simulator.assemble, hm]
    rfl
  show s.assemble.simulator.assemble.told.unobserved =
    (fresh settings s.maxSteps s.source).assemble.told.unobserved
  rw [hcleared, hs.assemble_of_none hm s.clear rfl rfl, hs.assemble_of_none hm (fresh ..) rfl rfl]
  rfl

/-- Whatever was done to a machine, taking it back makes it one that was never used. Whatever was
done through a simulator or behind it, once the machine is taken back, the source text is assembled
anew, or a text is loaded, all later replies are those of a new simulator with this text and the
same step limit. Replies are compared but for the number of observers, which shows in nothing else
that can be asked of a simulator. -/
theorem fresh_of_moves (settings : Settings) (moves later : List Move) :
    let s := (new settings).makeAll moves
    let untouched := fresh settings s.maxSteps
    (∀ p actions, ((Machine.start p).performAll actions).reset = .start p) ∧
    (∀ m, s.machine = some m →
      s.replies (.action .reset :: later) =
        (untouched s.source).replies (.action .assemble :: later) ∧
      (s.make (.action .assemble)).simulator.replies (.action .assemble :: later) =
        (untouched s.source).replies (.action .assemble :: later)) ∧
    (s.machine = none → s.replies later = (untouched s.source).replies later) ∧
    (∀ source, (s.make (.action (.load source))).simulator.replies later =
      (untouched source).replies later) ∧
    ∀ t : Simulator, t.unobserved.snapshot = t.snapshot ∧ t.unobserved.image? = t.image? ∧
      t.unobserved.halt? = t.halt? ∧ t.unobserved.steps = t.steps := by
  intro s untouched
  -- All that has to be known of what was done before: text, machine and status still fit.
  have hs : s.Founded := Founded.makeAll (.clear (new settings)) moves
  refine ⟨Machine.reset_performAll, fun m hm => ⟨?_, ?_⟩, fun hm => ?_, fun source => ?_,
    seen_unobserved⟩
  · exact replies_cons_eq (hs.reset_fresh hm settings) later
  · exact replies_cons_eq (hs.reassemble_fresh hm settings) later
  · exact replies_eq (hs.unobserved_of_none hm settings) later
  · have hloaded : (s.make (.action (.load source))).simulator.unobserved =
        (untouched source).unobserved := rfl
    exact replies_eq hloaded later

/-- After a run that the step limit cut off and a fault behind the simulator. -/
theorem fresh_of_moves_faulted :
    let source := "LOOP: INCA\n STA $0010\n JMP LOOP\n END"
    let moves : List Move :=
      [.action (.load source), .action (.setMaxSteps 5), .action .run, .behind (.poke 0x20 7),
        .behind (.evaluate "TFR X,PC"), .behind .step, .action .subscribe]
    let s := (new .default).makeAll moves
    s.halt? = some .faulted ∧
      s.replies [.action .reset, .action .run] =
        (fresh .default 5 source).replies [.action .assemble, .action .run] := by
  intro source moves s
  have hhalt : s.halt? = some .faulted := by decide +kernel
  obtain ⟨m, hm, -⟩ := Option.bind_eq_some_iff.mp hhalt
  obtain ⟨-, hassembled, -⟩ := fresh_of_moves .default moves [.action .run]
  obtain ⟨hreset, -⟩ := hassembled m hm
  have hlimit : s.maxSteps = 5 := by decide +kernel
  have hsource : s.source = source := by decide +kernel
  refine ⟨hhalt, ?_⟩
  rw [← hlimit, ← hsource]
  exact hreset

end Simulator
end Teach6809
