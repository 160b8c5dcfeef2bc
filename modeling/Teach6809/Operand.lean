import Teach6809.Register

/-!
# Operands

The operand of an instruction after its text has been read: the value, address or place the
instruction works with.
-/

namespace Teach6809

/-- The operand of an instruction. -/
inductive Operand where
  /-- No operand. -/
  | absent
  /-- A value in the instruction. -/
  | immediate (value : Word)
  /-- The low byte of an address; the high byte is `DP`. -/
  | direct (low : Byte)
  /-- A whole address. -/
  | extended (address : Word)
  /-- A signed offset from an index register. -/
  | indexed (offset : Int8) (base : IndexRegister)
  /-- A label of the program. -/
  | label (name : String)
  /-- The two registers of `TFR` and `EXG`. -/
  | pair (source target : Register)
deriving DecidableEq

namespace Operand

/-- An operand in words, for messages. -/
def describe : Operand → String
  | absent => "None"
  | immediate value => s!"Immediate({value.toNat})"
  | direct low => s!"Direct({low.toNat})"
  | extended address => s!"Extended({address.toNat})"
  | indexed offset base =>
    s!"Indexed \x7b offset: {offset.toInt}, reg: {base.name} \x7d"
  | label name => s!"Label(\"{name}\")"
  | pair source target => s!"Pair({source.name}, {target.name})"

end Operand
end Teach6809
