import Teach6809.Register

/-!
# Memory

A store of 65536 bytes. It is kept as a binary tree on the bits of the address, lowest bit first,
in which a missing subtree stands for zeros: a fresh memory is one node, and reading or writing
visits sixteen. `read` is the view of a memory; `read_write` says what a write does to it.
-/

namespace Teach6809

/-! ## The tree -/

/-- A tree of bytes on the bits of an address. -/
inductive Cells where
  /-- Zeros only. -/
  | blank
  /-- A byte at address zero and zeros elsewhere. -/
  | byte (value : Byte)
  /-- The bytes at even and at odd addresses, each at half its address. -/
  | fork (even odd : Cells)
deriving DecidableEq

namespace Cells

/-- The byte at an address. -/
def read : Cells → Nat → Byte
  | blank, _ => 0
  | byte value, address => if address = 0 then value else 0
  | fork even odd, address =>
    if address % 2 = 0 then even.read (address / 2) else odd.read (address / 2)

/-- The bytes at even addresses. -/
def evens : Cells → Cells
  | fork even _ => even
  | cells => cells

/-- The bytes at odd addresses. -/
def odds : Cells → Cells
  | fork _ odd => odd
  | _ => blank

/-- The tree with one byte replaced, for addresses of the given number of bits. -/
def write (value : Byte) : (bits : Nat) → Cells → Nat → Cells
  | 0, _, _ => byte value
  | bits + 1, cells, address =>
    if address % 2 = 0 then fork (write value bits cells.evens (address / 2)) cells.odds
    else fork cells.evens (write value bits cells.odds (address / 2))

/-- How many addresses have the given number of bits. -/
def capacity : (bits : Nat) → Nat
  | 0 => 1
  | bits + 1 => 2 * capacity bits

/-- How many bytes are not zero. -/
def countNonzero : Cells → Nat
  | blank => 0
  | byte value => if value = 0 then 0 else 1
  | fork even odd => even.countNonzero + odd.countNonzero

/-- Every tree reads as the fork of its even and odd halves. -/
theorem read_halves (cells : Cells) (address : Nat) :
    cells.read address =
      if address % 2 = 0 then cells.evens.read (address / 2)
      else cells.odds.read (address / 2) := by
  cases cells with
  | blank => simp [read, evens, odds]
  | fork even odd => simp [read, evens, odds]
  | byte value =>
    simp only [read, evens, odds]
    by_cases even : address % 2 = 0
    · simp only [even, if_true]
      by_cases zero : address = 0
      · simp [zero]
      · rw [if_neg zero, if_neg (by omega)]
    · rw [if_neg (by omega), if_neg even]

/-- A write replaces the byte at its address and no other. -/
theorem read_write (value : Byte) (bits : Nat) (cells : Cells) (address other : Nat)
    (inRange : address < capacity bits) (otherInRange : other < capacity bits) :
    (write value bits cells address).read other =
      if other = address then value else cells.read other := by
  induction bits generalizing cells address other with
  | zero =>
    have : address = 0 := by simpa [capacity] using inRange
    have : other = 0 := by simpa [capacity] using otherInRange
    simp_all [write, read]
  | succ bits ih =>
    have half : address / 2 < capacity bits := by rw [capacity] at inRange; omega
    have otherHalf : other / 2 < capacity bits := by rw [capacity] at otherInRange; omega
    rw [read_halves cells other, write]
    by_cases even : address % 2 = 0 <;> by_cases otherEven : other % 2 = 0
    · have same : other / 2 = address / 2 ↔ other = address := by omega
      simp [even, otherEven, read, ih _ _ _ half otherHalf, same]
    · have : other ≠ address := by omega
      simp [even, otherEven, read, this]
    · have : other ≠ address := by omega
      simp [even, otherEven, read, this]
    · have same : other / 2 = address / 2 ↔ other = address := by omega
      simp [even, otherEven, read, ih _ _ _ half otherHalf, same]

end Cells

/-! ## The store -/

/-- A store of one byte for every address. -/
structure Memory where
  cells : Cells
deriving DecidableEq

namespace Memory

/-- How many addresses there are. -/
def size : Nat := 0x10000

/-- A memory of zeros. -/
def empty : Memory := ⟨.blank⟩

/-- The byte at an address. -/
def read (m : Memory) (address : Word) : Byte := m.cells.read address.toNat

/-- The memory with one byte replaced. -/
def write (m : Memory) (address : Word) (value : Byte) : Memory :=
  ⟨m.cells.write value 16 address.toNat⟩

/-- The word at an address, high byte first; the address after the last is the first. -/
def readWord (m : Memory) (address : Word) : Word :=
  Word.ofBytes (m.read address) (m.read (address + 1))

/-- The memory with bytes replaced from `base` on; those beyond the last address are dropped. -/
def load (m : Memory) (base : Nat) : List Byte → Memory
  | [] => m
  | value :: rest =>
    if base < size then (m.write (UInt16.ofNat base) value).load (base + 1) rest else m

/-- The bytes of `count` addresses from `base` on, wrapping at the last address. -/
def range (m : Memory) (base : Word) (count : Nat) : List (Word × Byte) :=
  (List.range count).map fun i =>
    let address := base + UInt16.ofNat i
    (address, m.read address)

/-- How many bytes are not zero. -/
def countNonzero (m : Memory) : Nat := m.cells.countNonzero

@[simp] theorem read_empty (address : Word) : empty.read address = 0 := rfl

/-- A write replaces the byte at its address and no other. -/
theorem read_write (m : Memory) (address other : Word) (value : Byte) :
    (m.write address value).read other = if other = address then value else m.read other := by
  have eqv : other.toNat = address.toNat ↔ other = address := UInt16.toNat_inj
  simp only [read, write]
  rw [Cells.read_write _ _ _ _ _ address.toNat_lt other.toNat_lt]
  simp only [eqv]

end Memory
end Teach6809
