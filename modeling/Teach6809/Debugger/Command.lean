import Teach6809.Register
import Teach6809.Text.Numeral
import Teach6809.Text.Split

/-!
# Debugger commands

A command is a name, in any case and often with a short form, and arguments after it, all separated
by white space. `Command.read` reads a line or says what is wrong with it; of two faults the one
further to the left is told.
-/

namespace Teach6809

open Text

/-! ## Names -/

/-- The names of the commands. -/
inductive CommandName where
  | help | step | run | reset | assemble | registers | memory | program | set | eval | quit
deriving DecidableEq

namespace CommandName

/-- Every command name. -/
def all : List CommandName :=
  [help, step, run, reset, assemble, registers, memory, program, set, eval, quit]

/-- The full name of a command. -/
def text : CommandName → String
  | help => "help"
  | step => "step"
  | run => "run"
  | reset => "reset"
  | assemble => "assemble"
  | registers => "registers"
  | memory => "memory"
  | program => "program"
  | set => "set"
  | eval => "eval"
  | quit => "quit"

/-- The other names of a command. -/
def aliases : CommandName → List String
  | help => ["h"]
  | step => ["s"]
  | run => ["r"]
  | reset => []
  | assemble => ["a", "asm"]
  | registers => ["reg"]
  | memory => ["m", "mem"]
  | program => ["p", "prog"]
  | set => []
  | eval => ["e"]
  | quit => ["q", "exit"]

/-- The command of a name, in any case. -/
def ofName? (name : List Char) : Option CommandName :=
  let lower := String.ofList (name.map Char.toLower)
  all.find? fun command => command.text == lower || command.aliases.contains lower

end CommandName

/-! ## Commands -/

/-- What the debugger is told to do. -/
inductive Command where
  | help
  | step (count : Nat)
  | run
  | reset
  | assemble
  | registers
  | memory (address : Word) (count : Nat)
  | program
  | set (register : Register) (value : Word)
  | eval (instruction : String)
  | quit
deriving DecidableEq

/-- What is wrong with the value of an argument. -/
inductive ValueProblem where
  | malformed (value : String)
  | tooLarge (maximum : Nat)
  | unknownRegister (name : String)
  | notPositive
deriving DecidableEq

/-- What is wrong with the arguments of a command. -/
inductive ArgumentProblem where
  /-- No instruction after `eval`. -/
  | missingList (argument : String)
  | missing (argument : String) (expected actual : Nat)
  | tooMany (expected actual : Nat)
  | invalid (argument : String) (problem : ValueProblem)
deriving DecidableEq

/-- What is wrong with a command. -/
inductive CommandProblem where
  | unknown (name : String)
  | arguments (command : CommandName) (problem : ArgumentProblem)
deriving DecidableEq

/-- The wording of a problem with a value. -/
def ValueProblem.message : ValueProblem → String
  | malformed value => s!"Malformed integer `{value}`"
  | tooLarge maximum =>
    "Integer too large (maximum $" ++ String.ofList ((Nat.toDigits 16 maximum).map Char.toUpper) ++
      ")"
  | unknownRegister name => s!"Not a register: `{name}`"
  | notPositive => "Must be greater than zero"

/-- The wording of a problem with arguments. -/
def ArgumentProblem.message : ArgumentProblem → String
  | missingList argument => s!"Missing argument list `{argument}`"
  | missing argument expected actual =>
    s!"Missing argument `{argument}` (expected {expected}, found {actual})"
  | tooMany expected actual => s!"Too many arguments (expected {expected}, found {actual})"
  | invalid argument problem => s!"For argument `{argument}`: {problem.message}"

/-- The wording of a problem with a command. -/
def CommandProblem.message : CommandProblem → String
  | unknown name => s!"Not a command: `{name}`"
  | arguments command problem => s!"In command `{command.text}`: {problem.message}"

/-! ## Arguments -/

namespace Command

/-- The digits of a number and their base: sixteen after `$`, `0x` or `0X`, else ten. -/
def numberBase : List Char → Nat × List Char
  | '$' :: digits => (16, digits)
  | '0' :: 'x' :: digits => (16, digits)
  | '0' :: 'X' :: digits => (16, digits)
  | digits => (10, digits)

/-- A number that is at most `maximum`. Its digits may follow a plus sign; a number that does not
fit in 32 bits counts as malformed, not as too large. -/
def readNumber (argument : String) (maximum : Nat) (text : List Char) :
    Except ArgumentProblem Nat :=
  let (base, digits) := numberBase text
  match unsigned? base 0x100000000 digits with
  | none => .error (.invalid argument (.malformed (String.ofList text)))
  | some value =>
    if maximum < value then .error (.invalid argument (.tooLarge maximum)) else .ok value

/-- Refuses arguments after those that were taken. They are counted in a byte, so 256 of them count
as none; the total that is told stops at 255. -/
def refuseSurplus (expected taken : Nat) (rest : List (List Char)) : Except ArgumentProblem Unit :=
  let extra := rest.length % 256
  if extra = 0 then .ok () else .error (.tooMany expected (min 255 (taken + extra)))

/-- How many bytes `memory` shows if it is not told. -/
def defaultMemoryCount : Nat := 16

/-- How many instructions to execute: one, if no argument tells. -/
def readStep : List (List Char) → Except ArgumentProblem Command
  | [] => .ok (.step 1)
  | text :: rest => do
    let count ← readNumber "count" 0xFFFFFFFF text
    if count = 0 then .error (.invalid "count" .notPositive)
    else do
      refuseSurplus 1 1 rest
      return .step count

/-- From where and how many bytes to show. -/
def readMemory : List (List Char) → Except ArgumentProblem Command
  | [] => .error (.missing "address" 2 0)
  | text :: rest => do
    let address ← readNumber "address" 0xFFFF text
    match rest with
    | [] => return .memory (UInt16.ofNat address) defaultMemoryCount
    | countText :: rest =>
      let count ← readNumber "count" 0xFFFF countText
      refuseSurplus 2 2 rest
      return .memory (UInt16.ofNat address) count

/-- Which register to write, and what. -/
def readSet : List (List Char) → Except ArgumentProblem Command
  | [] => .error (.missing "register" 2 0)
  | name :: rest =>
    match Register.ofName? (String.ofList (name.map Char.toUpper)) with
    | none => .error (.invalid "register" (.unknownRegister (String.ofList name)))
    | some register =>
      match rest with
      | [] => .error (.missing "value" 2 1)
      | text :: rest => do
        let value ← readNumber "value" (if register.isWide then 0xFFFF else 0xFF) text
        refuseSurplus 2 2 rest
        return .set register (UInt16.ofNat value)

/-! ## Commands with their arguments -/

/-- A command that takes no arguments. -/
def alone (command : Command) (rest : List Char) : Except ArgumentProblem Command :=
  (refuseSurplus 0 0 (words rest)).map fun _ => command

/-- Reads the arguments of a command. `help` takes any, and `eval` takes all as they are. -/
def readArguments (rest : List Char) : CommandName → Except ArgumentProblem Command
  | .help => .ok .help
  | .run => alone .run rest
  | .reset => alone .reset rest
  | .assemble => alone .assemble rest
  | .registers => alone .registers rest
  | .program => alone .program rest
  | .quit => alone .quit rest
  | .step => readStep (words rest)
  | .memory => readMemory (words rest)
  | .set => readSet (words rest)
  | .eval =>
    if rest.isEmpty then .error (.missingList "instruction") else .ok (.eval (String.ofList rest))

/-- Reads a line that is not blank. -/
def read (line : List Char) : Except CommandProblem Command :=
  let text := trim line
  let name := text.takeWhile fun c => !isBlank c
  match CommandName.ofName? name with
  | none => .error (.unknown (String.ofList name))
  | some command =>
    (readArguments (trim (text.dropWhile fun c => !isBlank c)) command).mapError
      (.arguments command)

end Command
end Teach6809
