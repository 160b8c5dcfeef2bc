import Teach6809.Diagnostic
import Teach6809.Text.Split

/-!
# Source lines

A line of a program has the form `[LABEL:] [MNEMONIC [OPERAND]] [; COMMENT]`. A comment starts at
the first semicolon; a label ends at the first colon before it. ASCII letters are read as upper
case, and white space inside an operand does not count. Every part keeps the bytes of the source
text where it was found.
-/

namespace Teach6809

open Text

/-! ## Parts of a line -/

/-- A word of a program and where it was found. -/
structure Token where
  text : String
  span : Span
deriving DecidableEq

/-- A mnemonic and its operand as they are written. -/
structure Statement where
  mnemonic : Token
  operand : Option Token
deriving DecidableEq

/-- The bytes from the start of the mnemonic to the end of the operand. -/
def Statement.span (s : Statement) : Span :=
  match s.operand with
  | some operand => ⟨s.mnemonic.span.offset, operand.span.stop - s.mnemonic.span.offset⟩
  | none => s.mnemonic.span

/-- A line of a program; a blank line has neither part. -/
structure SourceLine where
  /-- The number of the line, the first being zero. -/
  index : Nat
  label : Option Token
  statement : Option Statement
deriving DecidableEq

/-! ## Stretches -/

/-- Characters of a line, with the byte of the source text where they start. -/
structure Stretch where
  offset : Nat
  text : List Char

namespace Stretch

/-- The characters up to the first that does not satisfy `p`. -/
def takeWhile (p : Char → Bool) (s : Stretch) : Stretch := ⟨s.offset, s.text.takeWhile p⟩

/-- The characters from the first that does not satisfy `p`. -/
def dropWhile (p : Char → Bool) (s : Stretch) : Stretch :=
  ⟨s.offset + utf8Length (s.text.takeWhile p), s.text.dropWhile p⟩

/-- The characters after the first. -/
def tail (s : Stretch) : Stretch := ⟨s.offset + utf8Length (s.text.take 1), s.text.drop 1⟩

/-- The characters without the white space at their end. -/
def trimEnd (s : Stretch) : Stretch := ⟨s.offset, Text.trimEnd s.text⟩

/-- The bytes of the source text that the characters take. -/
def span (s : Stretch) : Span := ⟨s.offset, utf8Length s.text⟩

end Stretch

/-! ## Reading a line -/

namespace SourceLine

/-- Whether a character can start a label. -/
def isLabelStart (c : Char) : Bool := c.isUpper || c == '_'

/-- Whether a character can continue a label. -/
def isLabelRest (c : Char) : Bool := isLabelStart c || c.isDigit

/-- Whether a text is a label: a letter or underscore, then letters, digits and underscores. -/
def isLabelName : List Char → Bool
  | [] => false
  | c :: rest => isLabelStart c && rest.all isLabelRest

/-- The label of a line without its comment, and the rest of the line. An empty label is blamed on
one byte, so that there is something to point at. -/
def readLabel (index : Nat) (code : Stretch) : Except Diagnostic (Option Token × Stretch) :=
  if ':' ∈ code.text then
    let name := ((code.takeWhile (· != ':')).dropWhile isBlank).trimEnd
    let span : Span := ⟨name.offset, max 1 name.span.length⟩
    if isLabelName name.text then
      .ok (some ⟨String.ofList name.text, span⟩, (code.dropWhile (· != ':')).tail)
    else if name.text.isEmpty then .error (.placed .emptyLabel index span)
    else .error (.placed (.invalidLabel (String.ofList name.text)) index span)
  else .ok (none, code)

/-- The mnemonic and operand of a line without its comment and label. -/
def readStatement (code : Stretch) : Option Statement :=
  let start := code.dropWhile isBlank
  if start.text.isEmpty then none
  else
    let word := start.takeWhile fun c => !isBlank c
    let rest := (start.dropWhile fun c => !isBlank c).dropWhile isBlank
    some
      { mnemonic := ⟨String.ofList word.text, word.span⟩
        operand :=
          if rest.text.isEmpty then none
          else some ⟨String.ofList (squeeze rest.text), rest.trimEnd.span⟩ }

/-- Reads the line with the given number, found at the given byte of the source text. -/
def read (index offset : Nat) (text : List Char) : Except Diagnostic SourceLine := do
  let upper : Stretch := ⟨offset, text.map Char.toUpper⟩
  let (label, rest) ← readLabel index (upper.takeWhile (· != ';'))
  return { index, label, statement := readStatement rest }

/-- Reads lines without their terminators, from the given number and byte on. -/
def readAll (index offset : Nat) : List (List Char) → Except Diagnostic (List SourceLine)
  | [] => .ok []
  | text :: rest => do
    let line ← read index offset (dropEndWhile (· == '\r') text)
    let lines ← readAll (index + 1) (offset + utf8Length text + 1) rest
    return line :: lines

/-- The lines of a source text. A line feed ends a line; carriage returns before it do not count. -/
def ofSource (source : String) : Except Diagnostic (List SourceLine) :=
  readAll 0 0 (terminated (· == '\n') source.toList)

end SourceLine
end Teach6809
