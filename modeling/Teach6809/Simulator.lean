import Teach6809.Assembly
import Teach6809.Machine.Evaluate
import Teach6809.Machine.Run
import Teach6809.Settings

/-!
# The simulator

A simulator keeps a source text and, once the text is assembled, the machine that executes it.
Assembling again discards the machine. Whoever subscribes to a simulator is sent a snapshot after
every action that changes what there is to see; an action of a halted simulator that does nothing
sends none.

An action is a function from a simulator to a `Reply`: the simulator after it, the answer to the
caller, the snapshots that were published and the instructions that were started.
-/

namespace Teach6809

/-! ## State -/

/-- How far the program of a simulator has come. -/
inductive Status where
  | notAssembled
  /-- Assembled, nothing executed yet. -/
  | ready
  | running
  | halted
deriving DecidableEq

/-- What a status is called in messages. -/
def Status.name : Status → String
  | notAssembled => "not assembled"
  | ready => "ready"
  | running => "running"
  | halted => "halted"

/-- A view of the machine at one moment. -/
structure Snapshot where
  registers : RegisterFile
  /-- The line of the next instruction, the first being zero. -/
  line : Nat
  /-- The stores since the snapshot before, in order. -/
  writes : List (Word × Byte)
  status : Status
deriving DecidableEq

/-- A source text and the machine that executes it. -/
structure Simulator where
  source : String
  machine : Option Machine
  status : Status
  maxSteps : Nat
  /-- How many observers have subscribed. -/
  observers : Nat
deriving DecidableEq

/-- What an action of a simulator leads to. -/
structure Reply (α : Type) where
  simulator : Simulator
  answer : α
  /-- The snapshots sent to every observer, in order. -/
  published : List Snapshot
  /-- The instructions started, in order. -/
  started : List PlacedInstruction

/-- A file that cannot be taken for a source text. -/
inductive FileProblem where
  | missing
  /-- The bytes are not UTF-8. -/
  | notText
deriving DecidableEq

namespace Simulator

/-- A simulator without a source text. -/
def new (settings : Settings) : Simulator where
  source := ""
  machine := none
  status := .notAssembled
  maxSteps := settings.maxSteps
  observers := 0

/-- Adds an observer. -/
def subscribe (s : Simulator) : Simulator := { s with observers := s.observers + 1 }

/-- The observers, in the order in which they subscribed, each with a snapshot. -/
def deliveries (s : Simulator) (snapshot : Snapshot) : List (Nat × Snapshot) :=
  (List.range s.observers).map fun observer => (observer, snapshot)

/-- Limits the length of later runs. -/
def setMaxSteps (s : Simulator) (limit : Nat) : Simulator := { s with maxSteps := limit }

/-- The simulator with its machine discarded. -/
def clear (s : Simulator) : Simulator := { s with machine := none, status := .notAssembled }

/-- Replaces the source text and discards the machine. -/
def loadSource (s : Simulator) (source : String) : Simulator := { s with source }.clear

/-- Replaces the source text by the contents of a file, if there is one and it is text. -/
def loadFile (s : Simulator) : Option ByteArray → Except FileProblem Simulator
  | none => .error .missing
  | some bytes =>
    match String.fromUTF8? bytes with
    | none => .error .notText
    | some source => .ok (s.loadSource source)

/-- The contents of a file that holds the source text. -/
def fileContents (s : Simulator) : ByteArray := s.source.toUTF8

/-- The bytes of the assembled program. -/
def image? (s : Simulator) : Option (List Byte) := s.machine.map fun m => m.program.image

/-- Why the machine stopped. -/
def halt? (s : Simulator) : Option Halt := s.machine.bind Machine.halt

/-- How many instructions the machine has executed; none if there is no machine. -/
def steps (s : Simulator) : Nat := (s.machine.map Machine.steps).getD 0

/-! ## Snapshots -/

/-- The view of the machine, with the given stores. -/
def snapshotWith (s : Simulator) (writes : List (Word × Byte)) : Snapshot :=
  match s.machine with
  | some m => { registers := m.registers, line := m.line, writes, status := s.status }
  | none => { registers := .powerOn, line := 0, writes, status := s.status }

@[simp] theorem writes_snapshotWith (s : Simulator) (writes : List (Word × Byte)) :
    (s.snapshotWith writes).writes = writes := by
  unfold snapshotWith
  split <;> rfl

@[simp] theorem status_snapshotWith (s : Simulator) (writes : List (Word × Byte)) :
    (s.snapshotWith writes).status = s.status := by
  unfold snapshotWith
  split <;> rfl

/-- The view of the machine. -/
def snapshot (s : Simulator) : Snapshot := s.snapshotWith []

/-- Sends the view of the machine to the observers and answers with it. -/
def publish (s : Simulator) (writes : List (Word × Byte)) (started : List PlacedInstruction) :
    Reply Snapshot :=
  let view := s.snapshotWith writes
  { simulator := s, answer := view, published := [view], started }

/-- An answer that changes nothing and is sent to nobody. -/
def silent {α : Type} (s : Simulator) (answer : α) : Reply α :=
  { simulator := s, answer, published := [], started := [] }

end Simulator

namespace Reply

/-- The reply with another answer. -/
def withAnswer {α β : Type} (r : Reply α) (answer : β) : Reply β := { r with answer }

/-- The reply of an action that cannot fail, as that of one that can. -/
def ok {α : Type} (r : Reply α) : Reply (Except Diagnostic α) := r.withAnswer (.ok r.answer)

end Reply

namespace Simulator

/-! ## Actions -/

/-- Assembles the source text, or discards the machine if there is one. -/
def assemble (s : Simulator) : Reply (Except Diagnostic Snapshot) :=
  match s.machine with
  | some _ => (s.clear.publish [] []).ok
  | none =>
    match Teach6809.assemble s.source with
    | .error problem => s.silent (.error problem)
    | .ok program =>
      ({ s with machine := some (Machine.start program), status := .ready }.publish [] []).ok

/-- Takes over a machine after a step or run. Any diagnostic halts the simulator; the snapshot is
sent before the diagnostic is answered. -/
def settle (s : Simulator) (machine : Machine) (outcome : Machine.Outcome)
    (writes : List (Word × Byte)) (started : List PlacedInstruction) :
    Reply (Except Diagnostic Snapshot) :=
  let s := { s with machine := some machine }
  match outcome with
  | .ok halt =>
    let status := if halt.isSome then Status.halted else Status.running
    ({ s with status }.publish writes started).ok
  | .error problem =>
    ({ s with status := .halted }.publish writes started).withAnswer (.error problem)

/-- Executes one instruction. If nothing is assembled yet, assembles instead. -/
def step (s : Simulator) : Reply (Except Diagnostic Snapshot) :=
  match s.machine with
  | none => s.assemble
  | some m =>
    if s.status = .halted then s.silent (.ok s.snapshot)
    else
      let (after, outcome) := m.step
      s.settle after outcome after.writes m.starting?.toList

/-- Runs an assembled program; see `runUntil`. -/
def runAssembled (s : Simulator) (m : Machine) (cancel : Nat → Bool) :
    Reply (Except Diagnostic Snapshot) :=
  if s.status = .halted then s.silent (.ok s.snapshot)
  else
    let run := m.runUntil s.maxSteps fun count _ => cancel count
    s.settle run.machine run.outcome run.writes run.started

/-- Runs until the program halts, the step limit is reached or `cancel` is true of the number of
steps taken. If nothing is assembled yet, assembles first. -/
def runUntil (s : Simulator) (cancel : Nat → Bool) : Reply (Except Diagnostic Snapshot) :=
  match s.machine with
  | some m => s.runAssembled m cancel
  | none =>
    let first := s.assemble
    match first.answer, first.simulator.machine with
    | .ok _, some m =>
      let second := first.simulator.runAssembled m cancel
      { second with published := first.published ++ second.published }
    | _, _ => first

/-- Runs until the program halts or the step limit is reached. -/
def run (s : Simulator) : Reply (Except Diagnostic Snapshot) := s.runUntil fun _ => false

/-- Takes the machine back to its start. -/
def reset (s : Simulator) : Reply Snapshot :=
  match s.machine with
  | some m => { s with machine := some m.reset, status := .ready }.publish [] []
  | none => s.publish [] []

/-- Writes a register of the machine, if there is one. Moving the program counter lets a halted
program go on. -/
def setRegister (s : Simulator) (r : Register) (value : Word) : Reply (Option Snapshot) :=
  match s.machine with
  | none => s.silent none
  | some m =>
    let status := if r = .pc ∧ s.status = .halted then Status.running else s.status
    let reply := { s with machine := some (m.set r value), status }.publish [] []
    reply.withAnswer (some reply.answer)

/-- Executes a line typed by hand, if there is a machine. -/
def evaluate (s : Simulator) (source : String) : Simulator × Option Machine.Outcome :=
  match s.machine with
  | none => (s, none)
  | some m =>
    let (after, outcome) := m.evaluate source
    ({ s with machine := some after }, some outcome)

/-- Puts a byte into the data memory, if there is a machine. -/
def poke (s : Simulator) (address : Word) (value : Byte) : Simulator :=
  { s with machine := s.machine.map fun m => m.poke address value }

end Simulator
end Teach6809
