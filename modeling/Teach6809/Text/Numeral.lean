/-!
# Numerals

Writing numbers in fixed columns and reading them back. Hexadecimal digits are written in upper
case and read in either case; only ASCII digits count.
-/

namespace Teach6809
namespace Text

/-! ## Writing -/

/-- The hexadecimal digit of a number below sixteen. -/
def hexDigit (n : Nat) : Char := (Nat.digitChar n).toUpper

/-- The last `width` hexadecimal digits of a number. -/
def hexChars : (width : Nat) → Nat → List Char
  | 0, _ => []
  | width + 1, n => hexChars width (n / 16) ++ [hexDigit (n % 16)]

/-- The last `width` hexadecimal digits of a number, as a string. -/
def hex (width n : Nat) : String := String.ofList (hexChars width n)

/-- A byte as two hexadecimal digits. -/
def hexByte (b : UInt8) : String := hex 2 b.toNat

/-- A word as four hexadecimal digits. -/
def hexWord (w : UInt16) : String := hex 4 w.toNat

/-- Bytes as two digits each, with single spaces between them. -/
def hexBytes (bytes : List UInt8) : String := " ".intercalate (bytes.map hexByte)

/-- A text filled with spaces on the right up to `width` characters. -/
def padRight (width : Nat) (text : String) : String :=
  text ++ String.ofList (List.replicate (width - text.length) ' ')

/-- A text filled with spaces on the left up to `width` characters. -/
def padLeft (width : Nat) (text : String) : String :=
  String.ofList (List.replicate (width - text.length) ' ') ++ text

/-! ## Reading -/

/-- The value of a digit in bases up to sixteen. -/
def digitValue (c : Char) : Nat :=
  if c.isDigit then c.toNat - '0'.toNat
  else if 'a' ≤ c ∧ c ≤ 'f' then c.toNat - 'a'.toNat + 10
  else if 'A' ≤ c ∧ c ≤ 'F' then c.toNat - 'A'.toNat + 10
  else 16

/-- Whether a character is a digit of the given base, at most sixteen. -/
def isDigitOf (base : Nat) (c : Char) : Bool := digitValue c < base

/-- The number that a row of digits denotes. -/
def valueOf (base : Nat) (digits : List Char) : Nat :=
  digits.foldl (fun value c => value * base + digitValue c) 0

/-- The number written by one or more digits of the base. -/
def natural? (base : Nat) (text : List Char) : Option Nat :=
  if !text.isEmpty && text.all (isDigitOf base) then some (valueOf base text) else none

/-- The number below `bound` written by an optional plus sign and one or more digits. -/
def unsigned? (base bound : Nat) (text : List Char) : Option Nat :=
  let digits := match text with
    | '+' :: rest => rest
    | _ => text
  (natural? base digits).filter (· < bound)

/-- The whole number written by one or more decimal digits, with an optional minus sign. -/
def integer? : List Char → Option Int
  | '-' :: digits => (natural? 10 digits).map fun n => -(n : Int)
  | digits => (natural? 10 digits).map fun n => (n : Int)

/-- The number written by one up to `most` hexadecimal digits. -/
def hexUpTo? (most : Nat) (text : List Char) : Option Nat :=
  if text.length ≤ most then natural? 16 text else none

end Text
end Teach6809
