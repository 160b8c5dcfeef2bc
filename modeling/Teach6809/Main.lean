import Teach6809.CommandLine.Execution

/-!
# The program

The outer layer: reads the arguments, the environment and the files that a request names, carries
the request out and shows what it leads to. Debugger commands from the standard input are taken
line by line, so that a session can be held while the input is open.
-/

namespace Teach6809

/-- Shows texts in the order in which they came. -/
def showTexts (texts : List (Stream × String)) : IO Unit := do
  let out ← IO.getStdout
  let err ← IO.getStderr
  for (stream, text) in texts do
    match stream with
    | .standardOutput => out.putStr text
    | .standardError => err.putStr text
  out.flush
  err.flush

/-- The contents of a file, if it can be read. -/
def readFile? (path : String) : IO (Option ByteArray) := do
  try
    return some (← IO.FS.readBinFile path)
  catch _ =>
    return none

/-- Whether a path names a folder that can be listed. -/
def isFolder (path : String) : IO Bool := do
  try
    let handle ← IO.FS.Handle.mk path .read
    let _ ← handle.read 1
    return false
  catch
    | .inappropriateType .. => return true
    | _ => return false

/-- The paths that a request reads or writes. -/
def requestPaths : Request → List String × List String
  | .run name _ | .debug name _ _ | .check name | .watch name => ([name], [])
  | .compile name destination => ([name], [destination.getD (Path.withExtension name "bin")])
  | _ => ([], [])

/-- The part of the file system that a request is about. -/
def surroundings (request : Request) : IO Directory := do
  let (sources, targets) := requestPaths request
  let mut files := []
  let mut folders := []
  for path in sources do
    if let some contents ← readFile? path then
      files := files ++ [(path, contents)]
  for path in sources ++ targets do
    let parent := String.ofList (Path.split path).1
    for folder in [path, parent] do
      if ← isFolder folder then
        folders := folders ++ [folder]
  return { files, folders }

/-- Writes the files of an outcome that were not there before. -/
def save (before : Directory) (outcome : Outcome) : IO Unit := do
  for (path, contents) in outcome.directory.files do
    if before.read? path != some contents then
      IO.FS.writeBinFile path contents

/-- Takes debugger commands from the standard input, showing what each line leads to. -/
partial def converse (session : Session) : IO Session := do
  showTexts session.console.shown.reverse
  let session := { session with console := { session.console with shown := [] } }
  let line ← (do (← IO.getStdin).getLine) <|> pure ""
  if line.isEmpty then
    return session.close
  let after := session.acceptAll (Script.ofLine line.toList)
  if after.finished then
    return after
  converse after

/-- Carries out a request and shows what it leads to. -/
def perform (host : Host) (request : Request) : IO Outcome := do
  match request with
  | .debug name none plain =>
    match host.openSession name plain with
    | .error outcome => return outcome
    | .ok session => return host.closeSession name (← converse session)
  | _ => return host.carryOut ByteArray.empty request

/-- The values of the variables that settings depend on. -/
def environment : IO (String → Option String) := do
  let trace ← IO.getEnv "SIM6809_TRACE"
  let limit ← IO.getEnv "SIM6809_MAX_STEPS"
  return fun name =>
    if name = "SIM6809_TRACE" then trace
    else if name = "SIM6809_MAX_STEPS" then limit
    else none

/-- Whether texts are coloured: on a terminal, unless the environment forbids it. -/
def wantsColor : IO Bool := do
  let forbidden ← IO.getEnv "NO_COLOR"
  let out ← IO.getStdout
  return forbidden.isNone && (← out.isTty)

end Teach6809

open Teach6809

/-- Carries out the command line. -/
def main (arguments : List String) : IO UInt32 := do
  let settings := Settings.ofEnvironment (← environment)
  let color ← wantsColor
  match Request.ofArguments arguments with
  | .error _ =>
    let host : Host := { settings, color, directory := ⟨[], []⟩ }
    let outcome := host.execute ByteArray.empty arguments
    showTexts outcome.console.shown.reverse
    return UInt32.ofNat outcome.exit
  | .ok request =>
    let host : Host := { settings, color, directory := ← surroundings request }
    let outcome ← perform host request
    try
      save host.directory outcome
    catch problem =>
      (← IO.getStderr).putStrLn s!"Error: {problem}"
      return 1
    showTexts outcome.console.shown.reverse
    return UInt32.ofNat outcome.exit
