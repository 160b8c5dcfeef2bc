import Teach6809.Instruction
import Teach6809.Proofs.Except

/-!
# Operands and addressing modes

An operand that was read in an addressing mode has the shape of that mode, so the encoder, the
decoder and the machine never meet another one. A label that was read is declared, and an immediate
value fits in the bytes it is given.
-/

namespace Teach6809

/-! ## The mode of an operand -/

/-- The addressing mode that an operand has the shape of. -/
def Operand.mode : Operand → AddressingMode
  | .absent => .inherent
  | .immediate _ => .immediate
  | .direct _ => .direct
  | .extended _ => .extended
  | .indexed _ _ => .indexed
  | .label _ => .relative
  | .pair _ _ => .registerPair

namespace Operand

/-- An immediate value fits in the bytes that the mnemonic gives it. -/
theorem readImmediate_eq_ok {m : Mnemonic} {text : String} {operand : Operand}
    (h : readImmediate m text = .ok operand) :
    ∃ value : Word, operand = .immediate value ∧ (m.immediateWidth = 1 → value.toNat ≤ 0xFF) := by
  unfold readImmediate at h
  split at h
  · cases h
  · rename_i value hvalue
    split at h
    · cases h
    · rename_i hnarrow
      cases h
      refine ⟨UInt16.ofNat value, rfl, fun hwidth => ?_⟩
      have hle : ¬ 0xFF < value := fun hlt => hnarrow ⟨hwidth, hlt⟩
      rw [UInt16.toNat_ofNat']
      omega

theorem mode_of_readDirect {text : String} {operand : Operand}
    (h : readDirect text = .ok operand) : operand.mode = .direct := by
  unfold readDirect at h
  split at h
  · cases h
  · cases h
    rfl

theorem mode_of_readExtended {text : String} {operand : Operand}
    (h : readExtended text = .ok operand) : operand.mode = .extended := by
  unfold readExtended at h
  split at h
  · cases h
  · cases h
    rfl

theorem mode_of_readIndexed {text : String} {operand : Operand}
    (h : readIndexed text = .ok operand) : operand.mode = .indexed := by
  unfold readIndexed at h
  split at h
  · cases h
  · split at h
    · cases h
    · obtain ⟨value, -, rfl⟩ := Except.map_eq_ok.mp h
      rfl

theorem mode_of_readPair {m : Mnemonic} {text : String} {operand : Operand}
    (h : readPair m text = .ok operand) : operand.mode = .registerPair := by
  unfold readPair at h
  split at h
  · cases h
  · split at h
    · obtain ⟨source, -, h⟩ := Except.bind_eq_ok.mp h
      obtain ⟨target, -, h⟩ := Except.bind_eq_ok.mp h
      cases h
      rfl
    · cases h

/-- A label that is read is declared. -/
theorem readLabel_eq_ok {labels : LabelTable} {m : Mnemonic} {text : String} {operand : Operand}
    (h : readLabel labels m text = .ok operand) :
    operand = .label text ∧ labels.declares text = true := by
  unfold readLabel at h
  split at h
  · rename_i hdeclared
    cases h
    exact ⟨rfl, hdeclared⟩
  · cases h

/-- Reading in a mode gives an operand of that mode. -/
theorem mode_of_read {labels : LabelTable} {m : Mnemonic} {mode : AddressingMode}
    {text : Option String} {operand : Operand} (h : read labels m mode text = .ok operand) :
    operand.mode = mode := by
  cases text with
  | none => cases mode <;> cases h; rfl
  | some text =>
    cases mode with
    | inherent => cases h; rfl
    | immediate =>
      obtain ⟨value, rfl, -⟩ := readImmediate_eq_ok h
      rfl
    | direct => exact mode_of_readDirect h
    | extended => exact mode_of_readExtended h
    | indexed => exact mode_of_readIndexed h
    | relative =>
      obtain ⟨rfl, -⟩ := readLabel_eq_ok h
      rfl
    | registerPair => exact mode_of_readPair h

/-- The declared labels are the only ones that operands name. -/
theorem declares_of_read {labels : LabelTable} {m : Mnemonic} {mode : AddressingMode}
    {text : Option String} {name : String} (h : read labels m mode text = .ok (.label name)) :
    labels.declares name = true := by
  have hmode : mode = .relative := (mode_of_read h).symm
  subst hmode
  cases text with
  | none => cases h
  | some text =>
    obtain ⟨hname, hdeclared⟩ := readLabel_eq_ok h
    cases hname
    exact hdeclared

theorem le_of_read {labels : LabelTable} {m : Mnemonic} {mode : AddressingMode}
    {text : Option String} {value : Word} (h : read labels m mode text = .ok (.immediate value))
    (hwidth : m.immediateWidth = 1) : value.toNat ≤ 0xFF := by
  have hmode : mode = .immediate := (mode_of_read h).symm
  subst hmode
  cases text with
  | none => cases h
  | some text =>
    obtain ⟨_, hvalue, hle⟩ := readImmediate_eq_ok h
    cases hvalue
    exact hle hwidth

end Operand

end Teach6809
