import Teach6809.Console.Report
import Teach6809.Debugger.Command
import Teach6809.Debugger.LineEditor

/-!
# Debugger sessions

A session takes commands one by one and talks about what they do to a simulator. Before it waits
for a command it goes to the start of a line and, if control may have moved, says where it is.
Commands that do not come from a terminal are echoed. Blank commands are passed over; the end of
the input ends the session like `quit`.
-/

namespace Teach6809

/-- What `help` shows. -/
def commandHelp : String :=
"Commands:
  help                     Show this message
  step [count]             Execute the next instruction, or `count` instructions
  run                      Execute until the program halts
  reset                    Return registers, flags and memory to power-on state
  assemble                 Assemble the program, or discard it if already assembled
  registers                Show registers and flags
  memory <addr> [count]    Show `count` bytes of data memory (default 16)
  program                  Show the assembled program, marking the next instruction
  set <reg> <value>        Set a register, e.g. `set X $2000`
  eval <instruction>       Execute a single instruction, e.g. `eval LDA #$10`
  quit                     Leave the debugger

Integers are decimal, or hex with a `$` or `0x` prefix.
Separate multiple commands with `;`.
"

/-- What is said when a program has halted. -/
def Halt.message : Halt → String
  | finished => "Reached END. Program halted."
  | interrupted => "Reached SWI. Program halted."
  | returned => "Returned with an empty call stack. Program halted."
  | exhausted => "Ran past the last instruction. Program halted."
  | faulted => "Program halted on an error. Use `reset` to start again."

/-- A conversation about a simulator. -/
structure Session where
  settings : Settings
  simulator : Simulator
  console : Console
  /-- Whether to say where control is before the next command. -/
  tellsPosition : Bool
  /-- Whether commands are shown as they are taken. -/
  echoes : Bool
  finished : Bool
  /-- How diagnostics are drawn on a console that is not plain. -/
  draw : Drawing := Drawing.brief

namespace Session

/-! ## Talk -/

/-- Says a line. -/
def say (s : Session) (channel : Channel) (text : String) : Session :=
  { s with console := s.console.printLine channel text }

/-- Says what was stored. -/
def sayWrites (s : Session) (writes : List (Word × Byte)) : Session :=
  writes.foldl
    (fun s entry =>
      s.say .sometimes
        ("Wrote $" ++ Text.hexByte entry.2 ++ " to $" ++ Text.hexWord entry.1 ++ "."))
    s

/-- A diagnostic about the source text as it is drawn, with the end of its last line. -/
def drawn (s : Session) (problem : Diagnostic) : String :=
  s.draw s.simulator.source problem ++ "\n"

/-- Tells a diagnostic: its wording on a plain console, else its drawing past the console's tracking
and colour. -/
def report (s : Session) (problem : Diagnostic) : Session :=
  if s.console.plain then s.say .always problem.message
  else { s with console := s.console.emit .standardError (s.drawn problem) }

/-- Says where control is. -/
def sayPosition (s : Session) : Session :=
  let snapshot := s.simulator.snapshot
  let pc := Text.hexWord snapshot.registers.pc
  match s.simulator.machine.bind Machine.current? with
  | some i => s.say .sometimes s!"Program counter at ${pc} (line {i.line + 1}): {i.text}"
  | none => s.say .sometimes s!"Program counter at ${pc} ({snapshot.status.name})."

/-- Gets ready for a command. -/
def await (s : Session) : Session :=
  let s := { s with console := s.console.startNewLine .always }
  if s.tellsPosition then { s.sayPosition with tellsPosition := false } else s

/-- Says that there is no machine. -/
def sayNotAssembled (s : Session) : Session := s.say .always "Program is not assembled."

/-- Takes over what an action of the simulator led to: the trace, then the stores it published. -/
def take {α : Type} (s : Session) (reply : Reply α) : Session :=
  let traced := { s with
    simulator := reply.simulator
    console := s.console.printTrace s.settings reply.started }
  reply.published.foldl (fun s snapshot => s.sayWrites snapshot.writes) traced

/-! ## Commands -/

/-- Says how many instructions were executed and why the program halted, if it did. -/
def sayExecuted (s : Session) (count : Nat) : Session :=
  let ending := if count = 1 then "" else "s"
  let counted :=
    if count = 0 then s else s.say .always s!"Executed {count} instruction{ending}."
  let told := match counted.simulator.halt? with
    | some reason => counted.say .always reason.message
    | none => counted
  { told with tellsPosition := true }

/-- Takes up to the given number of steps and counts those that executed. The first step of a
program that is not assembled assembles it, and is the last. -/
def takeSteps (s : Session) : (left executed : Nat) → Session × Nat
  | 0, executed => (s, executed)
  | left + 1, executed =>
    if s.simulator.status = .halted then (s, executed)
    else
      let reply := s.simulator.step
      -- Stores are told before the diagnostic of the same step.
      let after := s.take reply
      match reply.answer with
      | .error problem => (after.report problem, executed)
      | .ok _ =>
        if s.simulator.status = .notAssembled then
          (after.say .always "Assembled program.", executed)
        else after.takeSteps left (executed + 1)

/-- Runs the program. -/
def run (s : Session) : Session :=
  let reply := s.simulator.run
  let after := s.take reply
  let told := match reply.answer with
    | .error problem => after.report problem
    | .ok _ => after
  told.sayExecuted (reply.simulator.steps - s.simulator.steps)

/-- Assembles the program or discards it. -/
def assemble (s : Session) : Session :=
  let reply := s.simulator.assemble
  let after := s.take reply
  match reply.answer with
  | .error problem => after.report problem
  | .ok snapshot =>
    if snapshot.status = .notAssembled then after.say .always "Cleared assembled program."
    else { after with tellsPosition := true }.say .always "Assembled program."

/-- Writes a register. -/
def setRegister (s : Session) (register : Register) (value : Word) : Session :=
  let reply := s.simulator.setRegister register value
  match reply.answer with
  | none => s.sayNotAssembled
  | some _ =>
    let after := s.take reply
    { after with tellsPosition := register == Register.pc || after.tellsPosition }.say .always
      s!"Updated register {register.name}."

/-- Executes a line typed by hand. -/
def evaluate (s : Session) (instruction : String) : Session :=
  match s.simulator.machine with
  | none => s.sayNotAssembled
  | some m =>
    let (after, outcome) := m.evaluate instruction
    let s := { s with simulator := { s.simulator with machine := some after } }
    match outcome with
    | .error problem => s.report problem
    | .ok _ => { s.sayWrites after.writes with tellsPosition := after.pc != m.pc }

/-- Carries out a command. -/
def execute (s : Session) : Command → Session
  | .quit => { s with finished := true }
  | .help => s.say .always ("\n" ++ commandHelp)
  | .step count =>
    let (after, executed) := s.takeSteps count 0
    after.sayExecuted executed
  | .run => s.run
  | .reset =>
    { s.take s.simulator.reset with tellsPosition := true }.say .always
      "Reset program to initial state."
  | .assemble => s.assemble
  | .registers =>
    let told := s.say .sometimes "Registers:"
    let console := told.console.printRegisters .always s.simulator.snapshot.registers
    { told with console }
  | .memory address count =>
    match s.simulator.machine with
    | none => s.sayNotAssembled
    | some m =>
      let told := s.say .sometimes s!"Memory from ${Text.hexWord address}:"
      { told with console := told.console.printMemory .always m.data address count }
  | .program =>
    match s.simulator.machine with
    | none => s.sayNotAssembled
    | some m => { s with console := s.console.printProgram .always m.program m.pc }
  | .set register value => s.setRegister register value
  | .eval instruction => s.evaluate instruction

/-! ## The conversation -/

/-- Opens a session on a simulator, with a way to draw diagnostics. -/
def startWith (draw : Drawing) (settings : Settings) (console : Console) (simulator : Simulator)
    (echoes : Bool) : Session :=
  await
    { settings, simulator := simulator.subscribe, console, tellsPosition := true, echoes,
      finished := false, draw }

/-- Opens a session that draws diagnostics on one line. -/
def start (settings : Settings) (console : Console) (simulator : Simulator) (echoes : Bool) :
    Session :=
  startWith Drawing.brief settings console simulator echoes

/-- Shows a command that was taken. -/
def echo (s : Session) (command : List Char) : Session :=
  if s.echoes then
    s.say .sometimes ("\x1b[1mCommand: \x1b[0m" ++ String.ofList (Text.trim command))
  else s

/-- Takes a command as it was given. -/
def accept (s : Session) (command : List Char) : Session :=
  let heard := s.echo command
  if Text.allBlank command then heard
  else
    match Command.read command with
    | .error problem =>
      ((heard.say .always problem.message).say .always
        "Type `help` for a list of commands.").await
    | .ok command =>
      let after := heard.execute command
      if after.finished then after else after.await

/-- Ends the session because there are no more commands. -/
def close (s : Session) : Session := { s.echo [] with finished := true }

/-- Takes commands until the session is finished. -/
def acceptAll (s : Session) : List (List Char) → Session
  | [] => s
  | command :: rest =>
    let after := s.accept command
    if after.finished then after else after.acceptAll rest

/-- Takes commands until the session is finished, or there are no more. -/
def play (s : Session) (commands : List (List Char)) : Session :=
  let after := s.acceptAll commands
  if after.finished then after else after.close

/-- Takes typed commands, and collects what is drawn for those that were taken. -/
def playTyped (s : Session) : List LineEditor.Typed → Session × List String
  | [] => (s.close, [])
  | entry :: rest =>
    let after := s.accept entry.command
    if after.finished then (after, entry.frames)
    else
      let (last, frames) := after.playTyped rest
      (last, entry.frames ++ frames)

end Session
end Teach6809
