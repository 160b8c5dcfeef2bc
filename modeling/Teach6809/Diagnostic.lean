import Teach6809.Opcode
import Teach6809.Operand
import Teach6809.Text.Numeral

/-!
# Diagnostics

Everything that can go wrong while assembling or executing is a `Cause`: one constructor for each
rule that can be violated, holding what the rule was violated with. The wording is in one function,
`Cause.message`; `Cause.kind` sorts causes into the kinds a reader is told about. A `Diagnostic` is
a cause, together with its place in the text if it has one.

Where there is room, a diagnostic is drawn together with the text around its place. How that looks
is settled elsewhere: whatever shows drawings takes a `Drawing` as a parameter. The one that is used
if none is given says the parts of a diagnostic on one line.
-/

namespace Teach6809

/-! ## Places in a text -/

/-- A stretch of a source text, in bytes. -/
structure Span where
  offset : Nat
  length : Nat
deriving DecidableEq

/-- The first byte after a span. -/
def Span.stop (s : Span) : Nat := s.offset + s.length

/-- A stretch of a source text on one of its lines, the first line being line zero. -/
structure Place where
  line : Nat
  span : Span
deriving DecidableEq

/-! ## Kinds -/

/-- The kinds of things that can go wrong. -/
inductive Kind where
  /-- A bad or missing mnemonic, label or operand. -/
  | malformed
  /-- An addressing mode the instruction does not have. -/
  | unsupportedMode
  | unknownRegister
  | undeclaredLabel
  /-- The last instruction is not `END`. -/
  | missingEnd
  /-- An instruction typed by hand that is not known. -/
  | unsupportedInstruction
  /-- An index register other than `X`, `Y`, `U` and `S`. -/
  | badIndexRegister
  | duplicateLabel
  | branchOutOfRange
  /-- The program does not fit below the top of memory. -/
  | programTooLarge
  /-- Control went to an address where no instruction starts. -/
  | badAddress
  /-- A run took more instructions than it was allowed. -/
  | stepLimit
deriving DecidableEq

namespace Kind

/-- The identifier shown with a diagnostic. -/
def code : Kind → String
  | malformed => "asm::syntax"
  | unsupportedMode => "asm::encoding"
  | unknownRegister => "asm::register"
  | undeclaredLabel => "asm::label_not_found"
  | missingEnd => "asm::missing_end"
  | unsupportedInstruction => "run::unsupported"
  | badIndexRegister => "asm::indexed"
  | duplicateLabel => "asm::duplicate_label"
  | branchOutOfRange => "asm::branch_range"
  | programTooLarge => "asm::too_large"
  | badAddress => "run::address"
  | stepLimit => "run::step_limit"

/-- What the writer of the program can do about it. -/
def help : Kind → String
  | malformed => "lines take the form `[LABEL:] MNEMONIC [OPERAND]`"
  | unsupportedMode => "this instruction does not support that addressing mode"
  | unknownRegister => "valid registers are D, X, Y, U, S, PC, A, B, CC and DP"
  | undeclaredLabel => "declare the label as `NAME:` at the start of a line"
  | missingEnd => "finish the program with an `END` instruction"
  | unsupportedInstruction => "check the list of supported instructions"
  | badIndexRegister => "indexed operands use X, Y, U or S, e.g. `$10,X`"
  | duplicateLabel => "labels may only be declared once per program"
  | branchOutOfRange => "branch targets must be within -128..127 bytes"
  | programTooLarge => "programs must fit between $FE00 and $FFFF"
  | badAddress => "jumps and returns must land on the start of an instruction"
  | stepLimit => "the program may loop forever; raise SIM6809_MAX_STEPS if not"

/-- What is written at the place of a diagnostic. -/
def label : Kind → String
  | malformed => "invalid syntax"
  | unsupportedMode => "unsupported mode"
  | unknownRegister => "unknown register"
  | undeclaredLabel => "undeclared label"
  | missingEnd => "last instruction"
  | unsupportedInstruction => "unknown instruction"
  | badIndexRegister => "invalid index register"
  | duplicateLabel => "duplicate label"
  | branchOutOfRange => "target too far"
  | programTooLarge => "does not fit"
  | badAddress => "bad target"
  | stepLimit => "still running here"

end Kind

/-! ## Causes -/

/-- What went wrong. -/
inductive Cause where
  /-- A colon with no label before it. -/
  | emptyLabel
  /-- A label that is not a name. -/
  | invalidLabel (name : String)
  /-- A label declared on two lines. -/
  | duplicateLabel (name : String)
  /-- A word in the place of a mnemonic that is none. -/
  | unknownMnemonic (name : String)
  /-- A mnemonic in an addressing mode it does not have. -/
  | unsupportedMode (m : Mnemonic) (mode : AddressingMode)
  /-- A mnemonic without the operand it needs. -/
  | missingOperand (m : Mnemonic)
  /-- An immediate value or direct address that is not a short hexadecimal number. -/
  | notHexadecimal (operand : String)
  /-- An immediate value too large for an 8-bit register. -/
  | wideImmediate (operand : String)
  /-- An extended address that is not a hexadecimal number of at most four digits. -/
  | invalidAddress (operand : String)
  /-- An indexed operand whose base is not an index register. -/
  | invalidIndex (operand : String)
  /-- An offset that is not a number. -/
  | invalidOffset (offset : String)
  /-- An offset that does not fit in a byte. -/
  | wideOffset (offset : String)
  /-- A label operand that the program does not declare. -/
  | undeclaredLabel (name : String) (m : Mnemonic)
  /-- A label without an address. -/
  | unresolvedLabel (name : String)
  /-- An operand of `TFR` or `EXG` that is not two names. -/
  | malformedPair (m : Mnemonic)
  /-- A name in a register pair that is no register. -/
  | unknownRegister (name : String)
  /-- A short branch whose target is more than a signed byte away. -/
  | branchOutOfRange (target : Word) (distance : Int)
  /-- A program that ends with another instruction than `END`, or with none. -/
  | missingEnd (last : Option Mnemonic)
  /-- An instruction that would lie beyond the last address. -/
  | programTooLarge (m : Mnemonic)
  /-- A program counter at which no instruction starts. -/
  | noInstruction (pc : Word)
  /-- A run that used up its instructions. -/
  | stepLimit (count : Nat)
  /-- A blank line typed to be executed. -/
  | nothingToEvaluate
  /-- A line typed to be executed whose mnemonic is none. -/
  | unsupportedInstruction (name : String)
  /-- An operand used as an address that is none. -/
  | noAddress (operand : Operand)
  /-- An operand of `TFR` or `EXG` that is not a pair of registers. -/
  | noPair (operand : Operand)
deriving DecidableEq

namespace Cause

/-- The kind of a cause. -/
def kind : Cause → Kind
  | emptyLabel | invalidLabel _ | unknownMnemonic _ | missingOperand _ | notHexadecimal _
  | wideImmediate _ | invalidAddress _ | invalidOffset _ | wideOffset _ | malformedPair _
  | nothingToEvaluate | noPair _ => .malformed
  | unsupportedMode _ _ | noAddress _ => .unsupportedMode
  | unknownRegister _ => .unknownRegister
  | undeclaredLabel _ _ | unresolvedLabel _ => .undeclaredLabel
  | missingEnd _ => .missingEnd
  | unsupportedInstruction _ => .unsupportedInstruction
  | invalidIndex _ => .badIndexRegister
  | duplicateLabel _ => .duplicateLabel
  | branchOutOfRange _ _ => .branchOutOfRange
  | programTooLarge _ => .programTooLarge
  | noInstruction _ => .badAddress
  | stepLimit _ => .stepLimit

/-- The wording of a cause. -/
def message : Cause → String
  | emptyLabel => "empty label declaration"
  | invalidLabel name => s!"invalid label name `{name}`"
  | duplicateLabel name => s!"label `{name}` is declared more than once"
  | unknownMnemonic name => s!"unknown instruction `{name}`"
  | unsupportedMode m mode => s!"{m.name} does not support {mode.name} addressing"
  | missingOperand m => s!"missing operand for {m.name}"
  | notHexadecimal operand => s!"operand is not hexadecimal: {operand}"
  | wideImmediate operand => s!"immediate value {operand} does not fit in 8 bits"
  | invalidAddress operand => s!"invalid extended address: {operand}"
  | invalidIndex operand => s!"indexed mode not supported: `{operand}`"
  | invalidOffset offset => s!"invalid offset `{offset}`"
  | wideOffset offset => s!"offset `{offset}` does not fit in 8 bits"
  | undeclaredLabel name m => s!"label `{name}` not found for {m.name}"
  | unresolvedLabel name => s!"label `{name}` not found"
  | malformedPair m => s!"{m.name} expects two registers separated by a comma"
  | unknownRegister name => s!"unknown register `{name}`"
  | branchOutOfRange target distance =>
    s!"branch target ${Text.hexWord target} is {distance} bytes away"
  | missingEnd (some last) => s!"program ends with {last.name} instead of END"
  | missingEnd none => "program has no instructions, expected END"
  | programTooLarge m => s!"{m.name} does not fit, the program store ends at $FFFF"
  | noInstruction pc => s!"no instruction starts at ${Text.hexWord pc}"
  | stepLimit count => s!"stopped after {count} instructions without halting"
  | nothingToEvaluate => "nothing to evaluate"
  | unsupportedInstruction name => s!"unknown instruction `{name}`"
  | noAddress operand => s!"operand {operand.describe} does not name a memory address"
  | noPair operand => s!"expected a register pair, found {operand.describe}"

end Cause

/-! ## Diagnostics -/

/-- A cause and, if it belongs to one, its place in the text. -/
structure Diagnostic where
  cause : Cause
  place : Option Place
deriving DecidableEq

namespace Diagnostic

/-- A diagnostic that belongs to no place. -/
def unplaced (cause : Cause) : Diagnostic := ⟨cause, none⟩

/-- A diagnostic at a stretch of a line. -/
def placed (cause : Cause) (line : Nat) (span : Span) : Diagnostic := ⟨cause, some ⟨line, span⟩⟩

/-- The wording with the number of the line, counted from one. -/
def message (d : Diagnostic) : String :=
  match d.place with
  | some place => s!"Error on line {place.line + 1}: {d.cause.message}"
  | none => d.cause.message

/-- A diagnostic on one line: identifier, wording, help and, if it has a place, what is there. -/
def report (d : Diagnostic) : String :=
  let kind := d.cause.kind
  let general := s!"[{kind.code}] {d.message} | {kind.help}"
  match d.place with
  | some place =>
    general ++ s!" | {kind.label} @{place.span.offset}+{place.span.length}"
  | none => general

end Diagnostic

/-- How a diagnostic about a source text is drawn. -/
abbrev Drawing := (source : String) → Diagnostic → String

/-- The drawing on one line, which shows nothing of the text. -/
def Drawing.brief : Drawing := fun _ problem => problem.report

end Teach6809
