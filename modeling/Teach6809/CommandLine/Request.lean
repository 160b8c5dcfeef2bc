/-!
# Requests

The arguments of the command line. The first argument that is the name of a subcommand starts it;
another one is the path of a program to run. Options may stand anywhere, alone or joined
(`-mc step`), with their value in the next argument or attached to them; after `--` there are none.
Arguments are read from left to right, and the first thing that cannot be read, or that asks for
help, decides.
-/

namespace Teach6809

/-- What the command line asks for. -/
inductive Request where
  /-- Nothing: shows what the program is. -/
  | banner
  | run (name : String) (plain : Bool)
  | debug (name : String) (command : Option String) (plain : Bool)
  | compile (name : String) (destination : Option String)
  | check (name : String)
  | watch (name : String)
  | help
  | version
deriving DecidableEq

/-- What is wrong with the arguments. -/
inductive UsageProblem where
  | unexpected (argument : String)
  | missingValue (option : String)
  | repeated (option : String)
  | missingName
  | emptyName
deriving DecidableEq

/-- The wording of a problem with the arguments. -/
def UsageProblem.message : UsageProblem → String
  | unexpected argument => s!"unexpected argument '{argument}' found"
  | missingValue option => s!"a value is required for '{option}' but none was supplied"
  | repeated option => s!"the argument '{option}' cannot be used multiple times"
  | missingName => "the required argument '<NAME>' was not provided"
  | emptyName => "a value is required for '<NAME>' but none was supplied"

/-- The subcommands that take arguments. -/
inductive Subcommand where
  | run | debug | compile | check | watch
deriving DecidableEq

namespace Subcommand

/-- Every subcommand. -/
def all : List Subcommand := [run, debug, compile, check, watch]

/-- How a subcommand is written. -/
def name : Subcommand → String
  | run => "run"
  | debug => "debug"
  | compile => "compile"
  | check => "check"
  | watch => "watch"

/-- Whether a subcommand can be asked for minimal output. -/
def takesMinimal : Subcommand → Bool
  | run | debug => true
  | _ => false

/-- Whether a subcommand takes debugger commands. -/
def takesCommand : Subcommand → Bool
  | debug => true
  | _ => false

/-- How many paths a subcommand takes at most. -/
def maxNames : Subcommand → Nat
  | compile => 2
  | _ => 1

end Subcommand

/-- The arguments of a subcommand read so far. -/
structure Arguments where
  names : List String
  minimal : Bool
  command : Option String

namespace Arguments

/-- No arguments. -/
def none : Arguments := ⟨[], false, Option.none⟩

/-- Notes that minimal output is asked for. -/
def addMinimal (a : Arguments) : Except UsageProblem Arguments :=
  if a.minimal then .error (.repeated "--minimal") else .ok { a with minimal := true }

/-- Notes the debugger commands. -/
def addCommand (a : Arguments) (value : String) : Except UsageProblem Arguments :=
  if a.command.isSome then .error (.repeated "--command <COMMAND>")
  else .ok { a with command := some value }

/-- Notes a path. -/
def addName (a : Arguments) (sub : Subcommand) (name : String) : Except UsageProblem Arguments :=
  if sub.maxNames ≤ a.names.length then .error (.unexpected name)
  else if name.isEmpty then .error .emptyName
  else .ok { a with names := a.names ++ [name] }

/-- The request of complete arguments. -/
def request (a : Arguments) (sub : Subcommand) : Except UsageProblem Request :=
  match a.names with
  | [] => .error .missingName
  | name :: rest =>
    .ok <| match sub with
      | .run => .run name a.minimal
      | .debug => .debug name a.command a.minimal
      | .compile => .compile name rest.head?
      | .check => .check name
      | .watch => .watch name

end Arguments

/-- What an argument turns out to be. -/
inductive ArgumentStep where
  /-- The arguments with this one read. -/
  | taken (arguments : Arguments)
  /-- The next argument is the value of an option. -/
  | wantsValue (arguments : Arguments) (option : String)
  | help

/-- Reads joined one-letter options. -/
def readShort (sub : Subcommand) (whole : String) (a : Arguments) :
    List Char → Except UsageProblem ArgumentStep
  | [] => .ok (.taken a)
  | 'h' :: _ => .ok .help
  | c :: rest =>
    if c = 'm' ∧ sub.takesMinimal then do
      let noted ← a.addMinimal
      readShort sub whole noted rest
    else if c = 'c' ∧ sub.takesCommand then
      match rest with
      | [] => .ok (.wantsValue a "--command <COMMAND>")
      | '=' :: value => (a.addCommand (String.ofList value)).map .taken
      | value => (a.addCommand (String.ofList value)).map .taken
    else .error (.unexpected whole)

/-- Reads an option with a long name, which may have a value after an equals sign. -/
def readLong (sub : Subcommand) (whole : String) (a : Arguments) (text : List Char) :
    Except UsageProblem ArgumentStep :=
  let name := String.ofList (text.takeWhile (· != '='))
  match text.dropWhile (· != '=') with
  | [] =>
    if name = "help" then .ok .help
    else if name = "minimal" ∧ sub.takesMinimal then a.addMinimal.map .taken
    else if name = "command" ∧ sub.takesCommand then .ok (.wantsValue a "--command <COMMAND>")
    else .error (.unexpected whole)
  | _ :: value =>
    if name = "command" ∧ sub.takesCommand then
      (a.addCommand (String.ofList value)).map .taken
    else .error (.unexpected whole)

/-- Reads one argument of a subcommand, before any `--`. -/
def readArgument (sub : Subcommand) (a : Arguments) (argument : String) :
    Except UsageProblem ArgumentStep :=
  match argument.toList with
  | '-' :: '-' :: text => readLong sub argument a text
  | '-' :: c :: rest => readShort sub argument a (c :: rest)
  | _ => (a.addName sub argument).map .taken

namespace Request

/-- Whether an argument looks like an option, so that it is not the value of one. -/
def looksLikeOption (argument : String) : Bool :=
  match argument.toList with
  | '-' :: _ :: _ => true
  | _ => false

/-- Reads paths only. -/
def readNames (sub : Subcommand) (a : Arguments) : List String → Except UsageProblem Request
  | [] => a.request sub
  | name :: rest => do
    let noted ← a.addName sub name
    readNames sub noted rest

/-- Reads the arguments of a subcommand. -/
def readSubcommand (sub : Subcommand) (a : Arguments) : List String → Except UsageProblem Request
  | [] => a.request sub
  | argument :: rest =>
    if argument = "--" then readNames sub a rest
    else
      match readArgument sub a argument with
      | .error problem => .error problem
      | .ok .help => .ok .help
      | .ok (.taken noted) => readSubcommand sub noted rest
      | .ok (.wantsValue noted option) =>
        match rest with
        | [] => .error (.missingValue option)
        | value :: rest =>
          if looksLikeOption value then .error (.missingValue option)
          else do
            let noted ← noted.addCommand value
            readSubcommand sub noted rest

/-- The request of a path without a subcommand. -/
def ofPath : Option String → Request
  | some path => .run path false
  | none => .banner

/-- Notes a path without a subcommand; there can be one. -/
def addPath (path : Option String) (argument : String) : Except UsageProblem (Option String) :=
  if path.isSome then .error (.unexpected argument)
  else if argument.isEmpty then .error .emptyName
  else .ok (some argument)

/-- Reads paths only, without a subcommand. -/
def readPaths (path : Option String) : List String → Except UsageProblem Request
  | [] => .ok (ofPath path)
  | argument :: rest => do
    let path ← addPath path argument
    readPaths path rest

/-- The request for help about a subcommand. -/
def readHelp : List String → Except UsageProblem Request
  | [] => .ok .help
  | [topic] =>
    if topic = "help" || Subcommand.all.any fun sub => sub.name == topic then .ok .help
    else .error (.unexpected topic)
  | _ :: surplus :: _ => .error (.unexpected surplus)

/-- Reads arguments after which a path may already be known. -/
def readGeneral (path : Option String) : List String → Except UsageProblem Request
  | [] => .ok (ofPath path)
  | argument :: rest =>
    match Subcommand.all.find? fun sub => sub.name == argument with
    | some sub => readSubcommand sub .none rest
    | none =>
      if argument = "help" then readHelp rest
      else if argument = "--" then readPaths path rest
      else
        match argument.toList with
        | '-' :: '-' :: text =>
          if text = "help".toList then .ok .help
          else if text = "version".toList then .ok .version
          else .error (.unexpected argument)
        | '-' :: 'h' :: _ => .ok .help
        | '-' :: 'V' :: _ => .ok .version
        | '-' :: _ :: _ => .error (.unexpected argument)
        | _ => do
          let path ← addPath path argument
          readGeneral path rest

/-- The request of a command line. -/
def ofArguments (arguments : List String) : Except UsageProblem Request :=
  readGeneral none arguments

end Request
end Teach6809
