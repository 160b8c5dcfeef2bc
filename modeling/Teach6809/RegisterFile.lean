import Teach6809.Flags

/-!
# The register file

Every register at its own width. `D` is not stored: it reads and writes the accumulators `A` and
`B`. A value written to an 8-bit register is cut to its low byte, one read from it is extended
with zeros.
-/

namespace Teach6809

/-- Where programs are placed and where execution starts. -/
def origin : Word := 0xFE00

/-- The contents of all registers. -/
structure RegisterFile where
  a : Byte
  b : Byte
  dp : Byte
  x : Word
  y : Word
  u : Word
  s : Word
  pc : Word
  cc : Flags
deriving DecidableEq

namespace RegisterFile

/-- At power-on every register is zero, but the program counter is at the origin. -/
def powerOn : RegisterFile where
  a := 0
  b := 0
  dp := 0
  x := 0
  y := 0
  u := 0
  s := 0
  pc := origin
  cc := .powerOn

/-- The accumulators as one word, `A` high. -/
def d (r : RegisterFile) : Word := Word.ofBytes r.a r.b

/-- Puts a word into the accumulators, `A` high. -/
def setD (r : RegisterFile) (value : Word) : RegisterFile :=
  { r with a := Word.high value, b := Word.low value }

/-- The value of a register, extended with zeros to sixteen bits. -/
def get (r : RegisterFile) : Register → Word
  | .a => r.a.toUInt16
  | .b => r.b.toUInt16
  | .d => r.d
  | .dp => r.dp.toUInt16
  | .cc => r.cc.pack.toUInt16
  | .x => r.x
  | .y => r.y
  | .u => r.u
  | .s => r.s
  | .pc => r.pc

/-- Writes a register, cutting the value to its width. -/
def set (r : RegisterFile) (name : Register) (value : Word) : RegisterFile :=
  match name with
  | .a => { r with a := value.toUInt8 }
  | .b => { r with b := value.toUInt8 }
  | .d => r.setD value
  | .dp => { r with dp := value.toUInt8 }
  | .cc => { r with cc := .unpack value.toUInt8 }
  | .x => { r with x := value }
  | .y => { r with y := value }
  | .u => { r with u := value }
  | .s => { r with s := value }
  | .pc => { r with pc := value }

end RegisterFile
end Teach6809
