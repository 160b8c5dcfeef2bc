import Teach6809.Text.Split

/-!
# Scripts

Commands that are not typed on a terminal: those of a command line argument, and those of piped
input. In an argument a line feed or semicolon ends a command. Piped input is read line by line and
the commands of a line stand between semicolons; a line that is not UTF-8 ends the input.
-/

namespace Teach6809
namespace Script

open Text

/-- The commands of an argument. -/
def ofArgument (text : List Char) : List (List Char) :=
  terminated (fun c => c == '\n' || c == ';') text

/-- The commands of a line, which may still have its terminator. -/
def ofLine (line : List Char) : List (List Char) :=
  separated (· == ';') (dropEndWhile (fun c => c == '\n' || c == '\r') line)

/-- The lines of a text in bytes, without their line feeds. -/
def byteLines : List UInt8 → List (List UInt8)
  | [] => []
  | b :: rest =>
    if b = 0x0A then [] :: byteLines rest
    else
      match byteLines rest with
      | [] => [[b]]
      | line :: lines => (b :: line) :: lines

/-- The commands of lines up to the first that is not UTF-8. -/
def ofByteLines : List (List UInt8) → List (List Char)
  | [] => []
  | line :: rest =>
    match String.fromUTF8? (ByteArray.mk line.toArray) with
    | none => []
    | some text => ofLine text.toList ++ ofByteLines rest

/-- The commands of piped input. -/
def ofInput (bytes : ByteArray) : List (List Char) := ofByteLines (byteLines bytes.toList)

end Script
end Teach6809
