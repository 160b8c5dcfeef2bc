import Teach6809.CommandLine.Directory
import Teach6809.CommandLine.Request
import Teach6809.CommandLine.Usage
import Teach6809.Debugger.Session

/-!
# Carrying out requests

What each request shows, which file it leaves behind and how it exits: with 0 if all went well, 1 if
a file or program was refused, 2 if the arguments made no sense. An image file starts with the two
bytes of the origin; it is written only after the whole program has been assembled.
-/

namespace Teach6809

/-! ## Surroundings -/

/-- What a request is carried out with. -/
structure Host where
  settings : Settings
  color : Bool
  directory : Directory
  /-- How diagnostics are drawn. -/
  draw : Drawing := Drawing.brief

/-- What a request leads to. -/
structure Outcome where
  exit : Nat
  console : Console
  directory : Directory

namespace Host

/-- The console of a request. -/
def console (h : Host) (plain : Bool) : Console := .new plain h.color

/-- The end of a request that changed no file. -/
def exit (h : Host) (console : Console) (code : Nat) : Outcome := ⟨code, console, h.directory⟩

/-- The end of a request that was refused. -/
def refuse (h : Host) (console : Console) (reason : String) : Outcome :=
  h.exit (console.emit .standardError ("Error: " ++ reason ++ "\n")) 1

end Host

/-- Shows what is going on, unless the console is plain. -/
def Console.announce (c : Console) (style : Style) (left right : String) : Console :=
  if c.plain then c
  else
    c.emit .standardOutput
      (paint c.color style (Text.padLeft 12 left) ++ " " ++ right ++ "\n")

/-- Shows what is going on with a file. -/
def Console.announceFile (c : Console) (left name : String) : Console :=
  c.announce .green left ("target " ++ name)

/-! ## Checking and compiling -/

/-- The source text of a file, or why there is none. -/
def Directory.source (d : Directory) (name : String) : Except String String :=
  match d.read? name with
  | none => .error "No such file or directory"
  | some bytes =>
    match String.fromUTF8? bytes with
    | none => .error "The file is not UTF-8 text"
    | some source => .ok source

/-- The program of a file, or why there is none. -/
def Directory.program (d : Directory) (draw : Drawing) (name : String) : Except String Program :=
  match d.source name with
  | .error reason => .error reason
  | .ok source => (assemble source).mapError (draw source)

/-- The contents of an image file: the origin and the bytes of the program. -/
def Program.imageFile (p : Program) : ByteArray :=
  ByteArray.mk (Word.bytes origin ++ p.image).toArray

namespace Host

/-- Assembles a file and says whether it is in order. -/
def check (h : Host) (name : String) : Outcome :=
  let console := (h.console false).announceFile "Checking" name
  match h.directory.program h.draw name with
  | .error reason => h.refuse console reason
  | .ok _ => h.exit (console.announce .green "Success" "no errors found!") 0

/-- Assembles a file and writes its image. -/
def compile (h : Host) (name : String) (destination : Option String) : Outcome :=
  let console := (h.console false).announceFile "Assembling" name
  match h.directory.program h.draw name with
  | .error reason => h.refuse console reason
  | .ok program =>
    let target := destination.getD (Path.withExtension name "bin")
    match h.directory.write? target program.imageFile with
    | none => h.refuse console ("cannot write " ++ target)
    | some directory =>
      let told := (console.announce .green "Finished" "emit binary").announceFile "Saved" target
      { exit := 0, console := told, directory }

/-! ## Running and debugging -/

/-- The extension of program files. -/
def programExtension : String := "asmb"

/-- Assembles a file to be run, or ends the request. -/
def prepare (h : Host) (name : String) (plain : Bool) : Except Outcome (Console × Simulator) :=
  let console := (h.console plain).announceFile "Assembling" name
  match Path.extension? name with
  | none => .error (h.refuse console "File has no extension. Exiting...")
  | some extension =>
    if extension ≠ programExtension then
      .error (h.refuse console "File has unknown extension. Exiting...")
    else
      match h.directory.source name with
      | .error reason => .error (h.refuse console reason)
      | .ok source =>
        let reply := ((Simulator.new h.settings).loadSource source).assemble
        match reply.answer with
        | .error problem => .error (h.refuse console (h.draw source problem))
        | .ok _ => .ok (console, reply.simulator)

/-- Says why a program has halted. -/
def announceHalt (console : Console) : Option Halt → Console
  | some .exhausted => console.announce .red "Halted" "ran past the last instruction"
  | some .interrupted => console.announce .green "Halted" "reached SWI"
  | some .returned => console.announce .green "Halted" "returned from program"
  | _ => console.announce .green "Halted" "reached END"

/-- Runs a file and shows the registers. -/
def run (h : Host) (name : String) (plain : Bool) : Outcome :=
  match h.prepare name plain with
  | .error outcome => outcome
  | .ok (console, simulator) =>
    let console := console.announce .green "Running" "assembled program"
    let reply := simulator.run
    let traced := console.printTrace h.settings reply.started
    match reply.answer with
    | .error problem => h.refuse traced (h.draw simulator.source problem)
    | .ok snapshot =>
      let shown := traced.printSnapshot .normal snapshot
      h.exit ((announceHalt shown reply.simulator.halt?).announceFile "Completed" name) 0

/-- Opens a debugger session on a file, or ends the request. -/
def openSession (h : Host) (name : String) (plain : Bool) : Except Outcome Session :=
  (h.prepare name plain).map fun (console, simulator) =>
    Session.startWith h.draw h.settings (console.announce .green "Debugging" "assembled program")
      simulator true

/-- Ends the request of a session. -/
def closeSession (h : Host) (name : String) (s : Session) : Outcome :=
  h.exit (s.console.announceFile "Completed" name) 0

/-- Debugs a file with commands that are all known. -/
def debug (h : Host) (name : String) (plain : Bool) (commands : List (List Char)) : Outcome :=
  match h.openSession name plain with
  | .error outcome => outcome
  | .ok session => h.closeSession name (session.play commands)

/-! ## Requests -/

/-- Refuses to watch a file: there are no file events here. -/
def watch (h : Host) (name : String) : Outcome :=
  if h.directory.contains name then
    h.refuse (h.console false) "Watching a file is not supported. Exiting..."
  else h.refuse (h.console false) "File does not exist. Exiting..."

/-- Shows a text. -/
def tell (h : Host) (text : String) : Outcome :=
  h.exit ((h.console false).emit .standardOutput text) 0

/-- Carries out a request. `input` is what the standard input holds. -/
def carryOut (h : Host) (input : ByteArray) : Request → Outcome
  | .banner => h.tell bannerText
  | .help => h.tell usageText
  | .version => h.tell versionText
  | .run name plain => h.run name plain
  | .debug name (some command) plain => h.debug name plain (Script.ofArgument command.toList)
  | .debug name none plain => h.debug name plain (Script.ofInput input)
  | .compile name destination => h.compile name destination
  | .check name => h.check name
  | .watch name => h.watch name

/-- Carries out a command line. -/
def execute (h : Host) (input : ByteArray) (arguments : List String) : Outcome :=
  match Request.ofArguments arguments with
  | .ok request => h.carryOut input request
  | .error problem =>
    h.exit
      ((h.console false).emit .standardError
        ("error: " ++ problem.message ++ "\n\nFor more information, try '--help'.\n"))
      2

end Host
end Teach6809
