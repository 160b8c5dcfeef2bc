import Teach6809.Proofs.Machine.Action
import Teach6809.Simulator

/-!
# What is done to a simulator

Whoever holds a simulator gives it source texts, assembles them, executes and edits
(`Simulator.Action`). An action may fail; it leaves a simulator in any case. The states a simulator
can get into are those after a list of actions on a new one (`Simulator.reached`).
-/

namespace Teach6809

/-- What can be done to a simulator. A file to load is missing or has some bytes. A run is asked
with the number of steps taken whether to go on. -/
inductive Simulator.Action where
  | load (source : String)
  | loadFile (contents : Option ByteArray)
  | assemble
  | step
  | run
  | runUntil (cancel : Nat → Bool)
  | reset
  | setRegister (r : Register) (value : Word)
  | setMaxSteps (limit : Nat)
  | subscribe
  | evaluate (line : String)
  | poke (address : Word) (value : Byte)

/-- Whether an action assembles the source text if there is no machine yet. -/
def Simulator.Action.assembles : Action → Bool
  | .assemble | .step | .run | .runUntil _ => true
  | _ => false

/-- What the caller of an action is told. -/
inductive Simulator.Answer where
  | nothing
  | view (snapshot : Snapshot)
  | executed (halt : Option Halt)
  | refused (problem : Diagnostic)
  | unreadable (problem : FileProblem)

/-- The reply of an action that answers with a snapshot or a diagnostic. -/
def Reply.told (r : Reply (Except Diagnostic Snapshot)) : Reply Simulator.Answer :=
  r.withAnswer <|
    match r.answer with
    | .ok snapshot => .view snapshot
    | .error problem => .refused problem

namespace Simulator

/-- The reply to an action. -/
def perform (s : Simulator) : Action → Reply Answer
  | .load source => (s.loadSource source).silent .nothing
  | .loadFile contents =>
    match s.loadFile contents with
    | .ok after => after.silent .nothing
    | .error problem => s.silent (.unreadable problem)
  | .assemble => s.assemble.told
  | .step => s.step.told
  | .run => s.run.told
  | .runUntil cancel => (s.runUntil cancel).told
  | .reset => s.reset.withAnswer (.view s.reset.answer)
  | .setRegister r value =>
    let reply := s.setRegister r value
    reply.withAnswer <|
      match reply.answer with
      | some snapshot => .view snapshot
      | none => .nothing
  | .setMaxSteps limit => (s.setMaxSteps limit).silent .nothing
  | .subscribe => s.subscribe.silent .nothing
  | .evaluate line =>
    match s.evaluate line with
    | (after, some (.ok halt)) => after.silent (.executed halt)
    | (after, some (.error problem)) => after.silent (.refused problem)
    | (after, none) => after.silent .nothing
  | .poke address value => (s.poke address value).silent .nothing

/-- The simulator after several actions. -/
def performAll (s : Simulator) (actions : List Action) : Simulator :=
  actions.foldl (fun s a => (s.perform a).simulator) s

/-- The simulator after several actions on a new one. -/
def reached (settings : Settings) (actions : List Action) : Simulator :=
  (new settings).performAll actions

/-- What is true of a simulator and kept by every action stays true. -/
theorem performAll_induction {P : Simulator → Prop} {s : Simulator} (hs : P s)
    (hkept : ∀ s a, P s → P (s.perform a).simulator) (actions : List Action) :
    P (s.performAll actions) := by
  unfold performAll
  induction actions generalizing s with
  | nil => exact hs
  | cons a rest ih => exact ih (hkept s a hs)

end Simulator
end Teach6809
