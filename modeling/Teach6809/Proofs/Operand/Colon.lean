import Teach6809.Proofs.Operand.Mode
import Teach6809.Proofs.SourceLine.Spelling

/-!
# Operands have no colon

A colon would turn the words before it into a label. No operand that can be read has one: numbers,
register names and labels are made of other characters. Main statement: the operand of a checked
instruction has no colon if the labels of the program are well formed.
-/

namespace Teach6809

open Text

namespace Text

variable {text : List Char}

/-! ## Parts of a text -/

/-- A colon is not among the characters that are dropped. -/
theorem colon_mem_dropWhile {p : Char → Bool} (hp : p ':' = false) (h : ':' ∈ text) :
    ':' ∈ text.dropWhile p := by
  rw [← List.takeWhile_append_dropWhile (p := p) (l := text), List.mem_append] at h
  rcases h with h | h
  · rw [List.mem_takeWhile_imp h] at hp
    cases hp
  · exact h

theorem colon_mem_dropOne {c : Char} (hc : c ≠ ':') (h : ':' ∈ text) : ':' ∈ dropOne c text := by
  cases text with
  | nil => exact h
  | cons first rest =>
    rw [dropOne]
    split
    · rename_i hfirst
      rw [hfirst] at h
      exact (List.mem_cons.mp h).resolve_left hc.symm
    · exact h

/-! ## Numbers -/

/-- A colon is no digit. -/
theorem natural?_of_colon {base : Nat} (hbase : base ≤ 16) (h : ':' ∈ text) :
    natural? base text = none := by
  refine if_neg fun hdigits => ?_
  have hdigit := List.all_eq_true.mp (Bool.and_eq_true_iff.mp hdigits).2 ':' h
  have hlt : digitValue ':' < base := of_decide_eq_true hdigit
  have hvalue : digitValue ':' = 16 := by decide
  omega

theorem hexUpTo?_of_colon (most : Nat) (h : ':' ∈ text) : hexUpTo? most text = none := by
  rw [hexUpTo?, natural?_of_colon (Nat.le_refl 16) h, ite_self]

theorem integer?_of_colon (h : ':' ∈ text) : integer? text = none := by
  unfold integer?
  split
  · rename_i digits
    rw [natural?_of_colon (by decide) ((List.mem_cons.mp h).resolve_left (by decide))]
    rfl
  · rw [natural?_of_colon (by decide) h]
    rfl

end Text

/-! ## Readers -/

theorem IndexRegister.name_of_ofName? {text : String} {r : IndexRegister}
    (h : ofName? text = some r) : r.name = text := by
  unfold ofName? at h
  exact eq_of_beq (List.find?_some (p := fun r : IndexRegister => r.name == text) h)

namespace Operand

variable {m : Mnemonic} {text : String} {operand : Operand}

theorem colon_notMem_of_readImmediate (h : readImmediate m text = .ok operand) :
    ':' ∉ text.toList := by
  intro hcolon
  rw [readImmediate, hexUpTo?_of_colon 4
    (colon_mem_dropOne (by decide) (colon_mem_dropOne (by decide) hcolon))] at h
  cases h

theorem colon_notMem_of_readDirect (h : readDirect text = .ok operand) : ':' ∉ text.toList := by
  intro hcolon
  rw [readDirect, hexUpTo?_of_colon 2 (colon_mem_dropWhile (by decide) hcolon)] at h
  cases h

theorem colon_notMem_of_readExtended (h : readExtended text = .ok operand) :
    ':' ∉ text.toList := by
  intro hcolon
  rw [readExtended, hexUpTo?_of_colon 4 (colon_mem_dropWhile (by decide) hcolon)] at h
  cases h

theorem colon_notMem_of_readOffset {text : List Char} {value : Int8}
    (h : readOffset text = .ok value) : ':' ∉ text := by
  intro hcolon
  unfold readOffset at h
  split at h
  · cases hcolon
  · rw [hexUpTo?_of_colon 2 ((List.mem_cons.mp hcolon).resolve_left (by decide))] at h
    cases h
  · rw [integer?_of_colon hcolon] at h
    cases h

theorem colon_notMem_of_readIndexed (h : readIndexed text = .ok operand) : ':' ∉ text.toList := by
  unfold readIndexed at h
  split at h
  · cases h
  · rename_i offset name hcut
    split at h
    · cases h
    · rename_i base hbase
      obtain ⟨value, hvalue, -⟩ := Except.map_eq_ok.mp h
      have hname : ':' ∉ name := by
        rw [← String.toList_ofList (l := name), ← IndexRegister.name_of_ofName? hbase]
        cases base <;> decide
      rw [(cutAt?_eq_some_iff.mp hcut).1, List.mem_append, List.mem_cons]
      rintro (hcolon | hcolon | hcolon)
      · exact colon_notMem_of_readOffset hvalue hcolon
      · exact absurd hcolon (by decide)
      · exact hname hcolon

/-- Registers are named by letters. -/
theorem colon_notMem_of_isRegisterWord {text : List Char} (h : isRegisterWord text = true) :
    ':' ∉ text := fun hcolon =>
  absurd (List.all_eq_true.mp (Bool.and_eq_true_iff.mp h).2 ':' hcolon) (by decide)

theorem colon_notMem_of_readPair (h : readPair m text = .ok operand) : ':' ∉ text.toList := by
  unfold readPair at h
  split at h
  · cases h
  · rename_i left right hcut
    split at h
    · rename_i hwords
      obtain ⟨hleft, hright⟩ := Bool.and_eq_true_iff.mp hwords
      rw [(cutAt?_eq_some_iff.mp hcut).1, List.mem_append, List.mem_cons]
      rintro (hcolon | hcolon | hcolon)
      · exact colon_notMem_of_isRegisterWord hleft hcolon
      · exact absurd hcolon (by decide)
      · exact colon_notMem_of_isRegisterWord hright hcolon
    · cases h

end Operand

/-! ## Instructions -/

/-- Every declared label is a letter or underscore, then letters, digits and underscores. -/
def LabelTable.WellNamed (labels : LabelTable) : Prop :=
  ∀ name, labels.declares name = true → SourceLine.isLabelName name.toList = true

/-- Only a text without characters has the shape of no operand. -/
theorem AddressingMode.eq_nil_of_ofText {text : List Char} (h : ofText text = .inherent) :
    text = [] := by
  unfold ofText at h
  split at h
  · rfl
  · cases h
  · split at h
    · cases h
    · split at h
      · split at h <;> cases h
      · cases h

/-- A checked instruction has no colon in its operand. -/
theorem Instruction.colon_notMem_of_check {labels : LabelTable} {i : Instruction}
    {c : CheckedInstruction} (h : i.check labels = .ok c) (hlabels : labels.WellNamed)
    {text : String} (htext : i.operand = some text) : ':' ∉ text.toList := by
  unfold check at h
  split at h
  · cases h
  · obtain ⟨operand, hread, -⟩ := Except.map_eq_ok.mp h
    rw [htext] at hread
    cases hmode : i.mode with
    | inherent =>
      unfold mode at hmode
      split at hmode
      · cases hmode
      · simp only [htext] at hmode
        rw [AddressingMode.eq_nil_of_ofText hmode]
        exact List.not_mem_nil
    | immediate =>
      rw [hmode] at hread
      exact Operand.colon_notMem_of_readImmediate hread
    | direct =>
      rw [hmode] at hread
      exact Operand.colon_notMem_of_readDirect hread
    | extended =>
      rw [hmode] at hread
      exact Operand.colon_notMem_of_readExtended hread
    | indexed =>
      rw [hmode] at hread
      exact Operand.colon_notMem_of_readIndexed hread
    | relative =>
      -- Here the text is the name of a label, and a label stands before the first colon.
      rw [hmode] at hread
      obtain ⟨-, hdeclared⟩ := Operand.readLabel_eq_ok hread
      exact fun hcolon => (SourceLine.of_isLabelName (hlabels text hdeclared) hcolon).2.1 rfl
    | registerPair =>
      rw [hmode] at hread
      exact Operand.colon_notMem_of_readPair hread

end Teach6809
