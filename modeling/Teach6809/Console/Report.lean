import Teach6809.Console
import Teach6809.Simulator

/-!
# Reports

The registers, the data memory, the program and a snapshot as they are shown. Each report is a list
of texts that are printed one after another; on a plain console registers are one to a line, else
they are a table.
-/

namespace Teach6809

open Text

namespace Report

/-! ## Registers -/

/-- The registers in the order in which they are shown. -/
def shownRegisters : List Register := [.a, .b, .d, .dp, .x, .y, .u, .s, .pc, .cc]

/-- A register value in hexadecimal, unsigned and signed, each in its column. -/
def integerColumns (value : Word) (wide : Bool) : String :=
  if wide then
    hexWord value ++ "  " ++ padLeft 6 (toString value.toNat) ++ "  " ++
      padLeft 6 (toString (Word.signed value))
  else
    let low := value.toUInt8
    "  " ++ hexByte low ++ "  " ++ padLeft 6 (toString low.toNat) ++ "  " ++
      padLeft 6 (toString (Byte.signed low))

/-- The registers and flags, one register to a line. -/
def plainRegisters (r : RegisterFile) : List String :=
  let line (register : Register) : String :=
    register.name ++ " " ++ hex register.digits (r.get register).toNat ++ "\n"
  let flag (entry : String × Bool) : String := entry.1 ++ " " ++ (if entry.2 then "1" else "0")
  shownRegisters.map line ++ [" ".intercalate (r.cc.named.map flag) ++ "\n"]

/-- The left and right edge of the table. -/
def tableEdge : String := "\x1b[2m│\x1b[0m"

/-- The registers and flags as a table. -/
def registerTable (color : Bool) (r : RegisterFile) : List String :=
  let row (register : Register) : List String :=
    [tableEdge, " \x1b[1m" ++ register.name ++ "\x1b[0m  ",
      integerColumns (r.get register) register.isWide, " " ++ tableEdge ++ "\n"]
  let bit (entry : String × Bool) : String :=
    " " ++ entry.1 ++ ":" ++ (if entry.2 then paint color .bold "1" else paint color .dimmed "0")
  ["\x1b[2m┌──────────────────────────────┐\x1b[0m\n",
    "\x1b[2m│        \x1b[3mhex    uint     int\x1b[0m\x1b[2m │\x1b[0m\n"] ++
    shownRegisters.flatMap row ++
    [tableEdge, " \x1b[1mFlags\x1b[0m "] ++ r.cc.named.map bit ++
    ["  " ++ tableEdge ++ "\n", "\x1b[2m└──────────────────────────────┘\x1b[0m\n"]

/-! ## Snapshots -/

/-- The stores of a snapshot on one line, if there are any. -/
def writesLine : List (Word × Byte) → List String
  | [] => []
  | writes =>
    let cell (entry : Word × Byte) : String := hexWord entry.1 ++ "=" ++ hexByte entry.2
    ["Wrote " ++ " ".intercalate (writes.map cell) ++ "\n"]

/-! ## Memory -/

/-- How many bytes a row of a memory dump has. -/
def rowLength : Nat := 8

/-- The rows of a memory dump: the cells in order, `rowLength` to a row. -/
def rows (cells : List (Word × Byte)) : List (List (Word × Byte)) :=
  match cells with
  | [] => []
  | first :: rest =>
    (first :: rest.take (rowLength - 1)) :: rows (rest.drop (rowLength - 1))
termination_by cells.length
decreasing_by simp only [List.length_drop, List.length_cons]; omega

/-- A row of a memory dump: the address of its first cell and its bytes. Where the console is not
plain, zeros are dimmed. -/
def memoryRow (plain color : Bool) (row : List (Word × Byte)) : String :=
  let cell (entry : Word × Byte) : String :=
    if entry.2 = 0 ∧ !plain then paint color .dimmed (hexByte entry.2) else hexByte entry.2
  let address := match row with
    | [] => ""
    | first :: _ => hexWord first.1
  address ++ "  " ++ " ".intercalate (row.map cell) ++ "\n"

/-! ## Programs -/

/-- The line of a program listing for an instruction, set off if control is there. -/
def listingLine (plain color : Bool) (pc : Word) (i : PlacedInstruction) : String :=
  let isNext := i.address == pc
  let line := (if isNext then ">" else " ") ++ " " ++ hexWord i.address ++ "  " ++
    padRight 12 (hexBytes i.bytes) ++ " " ++ padLeft 4 (toString (i.line + 1)) ++ "  " ++
    i.text ++ "\n"
  if isNext && !plain then paint color .bold line else line

/-- The line of the trace for an instruction that is started. -/
def traceLine (i : PlacedInstruction) : String :=
  hexWord i.address ++ "  " ++ padRight 12 i.text ++ " " ++ hexBytes i.bytes ++ "\n"

end Report

/-! ## Showing reports -/

namespace Console

/-- Shows the registers and flags. -/
def printRegisters (c : Console) (channel : Channel) (r : RegisterFile) : Console :=
  c.printAll channel (if c.plain then Report.plainRegisters r else Report.registerTable c.color r)

/-- Shows the registers and flags of a snapshot and its stores. -/
def printSnapshot (c : Console) (channel : Channel) (s : Snapshot) : Console :=
  (c.printRegisters channel s.registers).printAll channel (Report.writesLine s.writes)

/-- Shows bytes of a memory, from an address on. -/
def printMemory (c : Console) (channel : Channel) (m : Memory) (base : Word)
    (count : Nat) : Console :=
  c.printAll channel ((Report.rows (m.range base count)).map (Report.memoryRow c.plain c.color))

/-- Shows a program with the instruction at `pc` set off. -/
def printProgram (c : Console) (channel : Channel) (p : Program) (pc : Word) : Console :=
  c.printAll channel (p.lines.map (Report.listingLine c.plain c.color pc))

/-- Shows the instructions that were started, if a trace was asked for. -/
def printTrace (c : Console) (s : Settings) (started : List PlacedInstruction) : Console :=
  if s.trace then c.printAll .sometimes (started.map Report.traceLine) else c

end Console
end Teach6809
