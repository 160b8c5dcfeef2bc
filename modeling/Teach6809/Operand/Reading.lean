import Teach6809.Label
import Teach6809.Operand

/-!
# Reading operands

The text of an operand is upper case and has no white space. Its shape decides the addressing mode;
the mode and the mnemonic decide what the text may be. `Operand.read` reads the text and names the
first rule that is violated.
-/

namespace Teach6809

open Text

/-! ## Addressing modes by shape -/

/-- The addressing mode of an operand text, for mnemonics that do not take a pair of registers.
A dollar sign with at most two bytes after it is a direct address. -/
def AddressingMode.ofText (text : List Char) : AddressingMode :=
  match text with
  | [] => .inherent
  | '#' :: _ => .immediate
  | first :: rest =>
    if ',' ∈ text then .indexed
    else if first = '$' then (if utf8Length rest ≤ 2 then .direct else .extended)
    else .relative

namespace Operand

/-! ## Values and addresses -/

/-- A value after a number sign and at most one dollar sign. -/
def readImmediate (m : Mnemonic) (text : String) : Except Cause Operand :=
  match hexUpTo? 4 (dropOne '$' (dropOne '#' text.toList)) with
  | none => .error (.notHexadecimal text)
  | some value =>
    if m.immediateWidth = 1 ∧ 0xFF < value then .error (.wideImmediate text)
    else .ok (.immediate (UInt16.ofNat value))

/-- One or two hexadecimal digits after any number of dollar signs. -/
def readDirect (text : String) : Except Cause Operand :=
  match hexUpTo? 2 (text.toList.dropWhile (· == '$')) with
  | none => .error (.notHexadecimal text)
  | some value => .ok (.direct (UInt8.ofNat value))

/-- One to four hexadecimal digits after any number of dollar signs. -/
def readExtended (text : String) : Except Cause Operand :=
  match hexUpTo? 4 (text.toList.dropWhile (· == '$')) with
  | none => .error (.invalidAddress text)
  | some value => .ok (.extended (UInt16.ofNat value))

/-! ## Indexed operands -/

/-- An offset: nothing, a dollar sign with one or two hexadecimal digits, or a decimal number that
fits in a byte with or without sign. -/
def readOffset (text : List Char) : Except Cause Int8 :=
  match text with
  | [] => .ok 0
  | '$' :: digits =>
    match hexUpTo? 2 digits with
    | none => .error (.invalidOffset (String.ofList text))
    | some value => .ok (Int8.ofNat value)
  | _ =>
    match integer? text with
    | none => .error (.invalidOffset (String.ofList text))
    | some value =>
      if -128 ≤ value ∧ value ≤ 255 then .ok (Int8.ofInt value)
      else .error (.wideOffset (String.ofList text))

/-- An offset and an index register, with a comma between them. -/
def readIndexed (text : String) : Except Cause Operand :=
  match cutAt? ',' text.toList with
  | none => .error (.invalidIndex text)
  | some (offset, name) =>
    match IndexRegister.ofName? (String.ofList name) with
    | none => .error (.invalidIndex text)
    | some base => (readOffset offset).map fun value => .indexed value base

/-! ## Register pairs -/

/-- Whether a text has the shape of a register name: one or two letters. -/
def isRegisterWord (text : List Char) : Bool :=
  (text.length == 1 || text.length == 2) && text.all Char.isUpper

/-- A register by its name. -/
def readRegister (name : List Char) : Except Cause Register :=
  match Register.ofName? (String.ofList name) with
  | none => .error (.unknownRegister (String.ofList name))
  | some register => .ok register

/-- Two registers with a comma between them. -/
def readPair (m : Mnemonic) (text : String) : Except Cause Operand :=
  match cutAt? ',' text.toList with
  | none => .error (.malformedPair m)
  | some (left, right) =>
    if isRegisterWord left && isRegisterWord right then do
      let source ← readRegister left
      let target ← readRegister right
      return .pair source target
    else .error (.malformedPair m)

/-! ## All operands -/

/-- A label that the program declares. -/
def readLabel (labels : LabelTable) (m : Mnemonic) (text : String) : Except Cause Operand :=
  if labels.declares text then .ok (.label text) else .error (.undeclaredLabel text m)

/-- Reads the text of an operand in the given addressing mode. -/
def read (labels : LabelTable) (m : Mnemonic) (mode : AddressingMode)
    (text : Option String) : Except Cause Operand :=
  match mode, text with
  | .inherent, _ => .ok .absent
  | _, none => .error (.missingOperand m)
  | .immediate, some text => readImmediate m text
  | .direct, some text => readDirect text
  | .extended, some text => readExtended text
  | .indexed, some text => readIndexed text
  | .relative, some text => readLabel labels m text
  | .registerPair, some text => readPair m text

end Operand
end Teach6809
