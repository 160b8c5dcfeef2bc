import Teach6809.Program

/-!
# Assembly

A source text becomes a program in one piece or not at all. The rules are checked in this order,
each over the whole text before the next: labels are well formed, no label is declared twice, every
instruction is known and its operand fits, the last instruction is `END`, every instruction lies
below `$10000`, every short branch reaches its target. The first violation is the one reported.
-/

namespace Teach6809
namespace Assembly

/-- Checks the instruction of a line. -/
def checkStatement (labels : LabelTable) (line : Nat) (s : Statement) :
    Except Diagnostic LocatedInstruction :=
  match Instruction.ofStatement? s with
  | none => .error (.placed (.unknownMnemonic s.mnemonic.text) line s.mnemonic.span)
  | some instruction =>
    match instruction.check labels with
    | .error cause => .error (.placed cause line s.span)
    | .ok checked => .ok { checked with line, span := s.span }

/-- Checks the instructions of lines, leaving out those without one. -/
def checkLines (labels : LabelTable) : List SourceLine → Except Diagnostic (List LocatedInstruction)
  | [] => .ok []
  | line :: rest =>
    match line.statement with
    | none => checkLines labels rest
    | some s => do
      let first ← checkStatement labels line.index s
      let others ← checkLines labels rest
      return first :: others

/-- Refuses instructions of which the last is not `END`. -/
def requireEnd (instructions : List LocatedInstruction) : Except Diagnostic Unit :=
  match instructions.getLast? with
  | none => .error (.unplaced (.missingEnd none))
  | some last =>
    if last.mnemonic = .stop then .ok ()
    else .error (.placed (.missingEnd (some last.mnemonic)) last.line last.span)

/-- Gives instructions their addresses, from the given one on. -/
def place (address : Nat) : List LocatedInstruction → Except Diagnostic (List PlacedInstruction)
  | [] => .ok []
  | i :: rest =>
    if Memory.size < address + i.size then
      .error (.placed (.programTooLarge i.mnemonic) i.line i.span)
    else do
      let others ← place (address + i.size) rest
      return { i with address := UInt16.ofNat address, operandBytes := [] } :: others

/-- Gives instructions their operand bytes, with the addresses of the labels of a program. -/
def resolve (p : Program) : List PlacedInstruction → Except Diagnostic (List PlacedInstruction)
  | [] => .ok []
  | i :: rest =>
    match i.operand.bytes i.mnemonic i.next p.labelTarget? with
    | .error cause => .error (.placed cause i.line i.span)
    | .ok operandBytes => do
      let others ← resolve p rest
      return { i with operandBytes } :: others

end Assembly

/-- Assembles a source text. -/
def assemble (source : String) : Except Diagnostic Program := do
  let lines ← SourceLine.ofSource source
  let labels ← LabelTable.ofLines lines
  let instructions ← Assembly.checkLines labels lines
  Assembly.requireEnd instructions
  let placed ← Assembly.place origin.toNat instructions
  let layout : Program := { labels, lineCount := lines.length, lines := placed }
  let resolved ← Assembly.resolve layout placed
  return { layout with lines := resolved }

end Teach6809
