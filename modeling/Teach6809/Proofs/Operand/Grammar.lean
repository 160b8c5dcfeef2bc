import Teach6809.Proofs.Operand.Spelling

/-!
# The grammar of operands

What becomes of a text behind a mnemonic. Its shape decides the addressing mode, and if the mnemonic
has the mode, the reader of the mode decides which operand it is or what kind of error
(`Instruction.verdict`). Main statement: `operand_of_written`, for every mnemonic and every text
with the shape of an immediate value, an indexed operand or a pair of registers.
-/

namespace Teach6809

/-! ## Verdicts -/

namespace Instruction

/-- A mnemonic with a text behind it. Where there is no text there is no operand. -/
def written (m : Mnemonic) (text : String) : Instruction :=
  ⟨m, if text = "" then none else some text⟩

/-- What the operand of an instruction is read as, or the kind of error if it is rejected. -/
def verdict (labels : LabelTable) (i : Instruction) : Except Kind Operand :=
  ((i.check labels).map CheckedInstruction.operand).mapError Cause.kind

variable {labels : LabelTable} {m : Mnemonic} {text : String}

/-- The shape of the text decides the mode, except for the mnemonics that take a pair. -/
theorem mode_written :
    (written m text).mode = if m.takesPair then .registerPair else .ofText text.toList := by
  by_cases htext : text = ""
  · simp [written, mode, htext, AddressingMode.ofText]
  · simp [written, mode, htext]

/-- If the mnemonic has the mode, the verdict is that of the reader. -/
theorem verdict_eq {i : Instruction} (h : (i.mnemonic.opcode? i.mode).isSome) :
    i.verdict labels =
      (Operand.read labels i.mnemonic i.mode i.operand).mapError Cause.kind := by
  obtain ⟨opcode, hopcode⟩ := Option.isSome_iff_exists.mp h
  rw [verdict, check, hopcode]
  cases Operand.read labels i.mnemonic i.mode i.operand <;> rfl

theorem verdict_written (h : (m.opcode? (written m text).mode).isSome) (htext : text ≠ "") :
    (written m text).verdict labels =
      (Operand.read labels m (written m text).mode (some text)).mapError Cause.kind := by
  rw [verdict_eq h]
  simp [written, htext]

end Instruction

namespace AddressingMode

variable {text : List Char}

/-- A number sign in front makes a value immediate. -/
theorem ofText_eq_immediate_iff : ofText text = .immediate ↔ text.head? = some '#' := by
  unfold ofText
  split
  · simp
  · simp
  · rename_i first rest hfirst
    have hne : first ≠ '#' := hfirst
    simp only [List.head?_cons, Option.some.injEq, hne, iff_false]
    split_ifs <;> simp

/-- A comma makes an operand indexed. -/
theorem ofText_eq_indexed_iff :
    ofText text = .indexed ↔ text.head? ≠ some '#' ∧ ',' ∈ text := by
  unfold ofText
  split
  · simp
  · simp
  · rename_i first rest hfirst
    have hne : first ≠ '#' := hfirst
    simp only [List.head?_cons, ne_eq, Option.some.injEq, hne, not_false_eq_true, true_and]
    split_ifs with hcomma <;> simp [hcomma]

end AddressingMode

/-! ## Verdicts by shape -/

namespace Instruction

variable {labels : LabelTable} {m : Mnemonic} {text : String}

/-- The operand that is read has the mode of the instruction. -/
theorem mode_of_verdict {operand : Operand} (hmode : (m.opcode? (written m text).mode).isSome)
    (h : (written m text).verdict labels = .ok operand) :
    operand.mode = (written m text).mode := by
  rw [verdict_eq hmode, Except.mapError_eq_ok] at h
  exact Operand.mode_of_read h

theorem verdict_of_head (hpair : m.takesPair = false)
    (hmode : (m.opcode? (written m text).mode).isSome) (hhead : text.toList.head? = some '#') :
    (written m text).verdict labels = (Operand.readImmediate m text).mapError Cause.kind := by
  have htext : text ≠ "" := by
    rintro rfl
    cases hhead
  have himmediate : (written m text).mode = .immediate := by
    rw [mode_written, hpair]
    exact AddressingMode.ofText_eq_immediate_iff.mpr hhead
  rw [verdict_written hmode htext, himmediate]
  rfl

theorem verdict_of_comma (hpair : m.takesPair = false)
    (hmode : (m.opcode? (written m text).mode).isSome) (hhead : text.toList.head? ≠ some '#')
    (hcomma : ',' ∈ text.toList) :
    (written m text).verdict labels = (Operand.readIndexed text).mapError Cause.kind := by
  have htext : text ≠ "" := by
    rintro rfl
    cases hcomma
  have hindexed : (written m text).mode = .indexed := by
    rw [mode_written, hpair]
    exact AddressingMode.ofText_eq_indexed_iff.mpr ⟨hhead, hcomma⟩
  rw [verdict_written hmode htext, hindexed]
  rfl

/-- Without any text the verdict is that of the reader on an empty one. -/
theorem verdict_of_pair (hpair : m.takesPair = true)
    (hmode : (m.opcode? (written m text).mode).isSome) :
    (written m text).verdict labels = (Operand.readPair m text).mapError Cause.kind := by
  have hregisters : (written m text).mode = .registerPair := by simp [mode_written, hpair]
  by_cases htext : text = ""
  · subst htext
    rw [verdict_eq hmode, hregisters]
    rfl
  · rw [verdict_written hmode htext, hregisters]
    rfl

theorem verdict_immediate_iff {value : Word} (hpair : m.takesPair = false)
    (hmode : (m.opcode? (written m text).mode).isSome) :
    (written m text).verdict labels = .ok (.immediate value) ↔
      Operand.SpellsImmediate m text.toList value := by
  constructor
  · intro h
    have hhead : text.toList.head? = some '#' := by
      have hsame := mode_of_verdict hmode h
      rw [mode_written, hpair] at hsame
      exact AddressingMode.ofText_eq_immediate_iff.mp hsame.symm
    rw [verdict_of_head hpair hmode hhead, Except.mapError_eq_ok] at h
    obtain ⟨_, hsame, hspells⟩ := Operand.exists_spellsImmediate hhead h
    cases hsame
    exact hspells
  · intro h
    rw [verdict_of_head hpair hmode h.head, Except.mapError_eq_ok]
    exact h.readImmediate

theorem verdict_indexed_iff {offset : Int8} {base : IndexRegister} (hpair : m.takesPair = false)
    (hmode : (m.opcode? (written m text).mode).isSome) :
    (written m text).verdict labels = .ok (.indexed offset base) ↔
      Operand.SpellsIndexed text.toList offset base := by
  constructor
  · intro h
    have hsame := mode_of_verdict hmode h
    rw [mode_written, hpair] at hsame
    obtain ⟨hhead, hcomma⟩ := AddressingMode.ofText_eq_indexed_iff.mp hsame.symm
    rw [verdict_of_comma hpair hmode hhead hcomma, Except.mapError_eq_ok] at h
    obtain ⟨_, _, hsame, hspells⟩ := Operand.exists_spellsIndexed hcomma h
    cases hsame
    exact hspells
  · intro h
    rw [verdict_of_comma hpair hmode h.head h.hasBase.comma_mem, Except.mapError_eq_ok]
    exact h.readIndexed

theorem verdict_pair_iff {source target : Register} (hpair : m.takesPair = true)
    (hmode : (m.opcode? (written m text).mode).isSome) :
    (written m text).verdict labels = .ok (.pair source target) ↔
      Operand.SpellsPair text.toList source target := by
  rw [verdict_of_pair hpair hmode, Except.mapError_eq_ok]
  constructor
  · intro h
    obtain ⟨_, _, hsame, hspells⟩ := Operand.exists_spellsPair h
    cases hsame
    exact hspells
  · intro h
    exact h.readPair

end Instruction

open Operand Instruction in
/-- A mnemonic in a mode it has takes exactly the texts of the grammar, with the values they spell.
Another text behind a number sign is malformed. Another text with a comma has a bad index register
if no index register stands behind its first comma, and is malformed otherwise. Another text in
place of a pair names an unknown register if it is two words, and is malformed otherwise. -/
theorem operand_of_written {m : Mnemonic} {text : String} (labels : LabelTable)
    (hmode : (m.opcode? (written m text).mode).isSome) :
    (m.takesPair = false →
      (∀ value, (written m text).verdict labels = .ok (.immediate value) ↔
        SpellsImmediate m text.toList value) ∧
      (∀ offset base, (written m text).verdict labels = .ok (.indexed offset base) ↔
        SpellsIndexed text.toList offset base) ∧
      (text.toList.head? = some '#' →
        ((written m text).verdict labels = .error .malformed ↔
          ∀ value, ¬ SpellsImmediate m text.toList value)) ∧
      (text.toList.head? ≠ some '#' → ',' ∈ text.toList →
        ((written m text).verdict labels = .error .badIndexRegister ↔
          ∀ base, ¬ HasBase text.toList base) ∧
        ((written m text).verdict labels = .error .malformed ↔
          (∃ base, HasBase text.toList base) ∧
            ∀ offset base, ¬ SpellsIndexed text.toList offset base))) ∧
    (m.takesPair = true →
      (∀ source target, (written m text).verdict labels = .ok (.pair source target) ↔
        SpellsPair text.toList source target) ∧
      ((written m text).verdict labels = .error .unknownRegister ↔
        SpellsWords text.toList ∧ ∀ source target, ¬ SpellsPair text.toList source target) ∧
      ((written m text).verdict labels = .error .malformed ↔ ¬ SpellsWords text.toList)) := by
  constructor
  · intro hpair
    refine ⟨fun value => verdict_immediate_iff hpair hmode,
      fun offset base => verdict_indexed_iff hpair hmode, ?_, ?_⟩
    · intro hhead
      rw [verdict_of_head hpair hmode hhead]
      exact readImmediate_malformed_iff hhead
    · intro hhead hcomma
      rw [verdict_of_comma hpair hmode hhead hcomma]
      exact ⟨readIndexed_badIndexRegister_iff hcomma, readIndexed_malformed_iff hcomma⟩
  · intro hpair
    refine ⟨fun source target => verdict_pair_iff hpair hmode, ?_⟩
    rw [verdict_of_pair hpair hmode]
    exact ⟨readPair_unknownRegister_iff, readPair_malformed_iff⟩

open Operand Instruction in
/-- The largest offset with a zero in front, which is the same byte with its sign; a wide immediate
value with letters of both cases; a pair of registers. -/
theorem operand_of_written_wrapped :
    let loadA := written (.load .a) "0255,U"
    let loadX := written (.load .x) "#$1f2E"
    let transfer := written .tfr "CC,DP"
    (((Mnemonic.load .a).opcode? loadA.mode).isSome = true ∧
      SpellsIndexed "0255,U".toList (-1) .u ∧
      loadA.verdict .empty = .ok (.indexed (-1) .u)) ∧
    (((Mnemonic.load .x).opcode? loadX.mode).isSome = true ∧
      SpellsImmediate (.load .x) "#$1f2E".toList 0x1F2E ∧
      loadX.verdict .empty = .ok (.immediate 0x1F2E)) ∧
    ((Mnemonic.tfr.opcode? transfer.mode).isSome = true ∧
      SpellsPair "CC,DP".toList .cc .dp ∧
      transfer.verdict .empty = .ok (.pair .cc .dp)) := by
  intro loadA loadX transfer
  refine ⟨?_, ?_, ?_⟩
  · have hmode : ((Mnemonic.load .a).opcode? loadA.mode).isSome = true := by decide +kernel
    have hoffset : Text.Denotes 10 "0255".toList 255 :=
      ⟨[0, 2, 5, 5], by decide, by decide, by decide, rfl⟩
    have hspells : SpellsIndexed "0255,U".toList (-1) .u :=
      ⟨"0255".toList, 255, by decide, .decimal hoffset (by decide), by decide⟩
    obtain ⟨-, hindexed, -⟩ := (operand_of_written .empty hmode).1 rfl
    exact ⟨hmode, hspells, (hindexed (-1) .u).mpr hspells⟩
  · have hmode : ((Mnemonic.load .x).opcode? loadX.mode).isSome = true := by decide +kernel
    have hdigits : Text.Denotes 16 "1f2E".toList 0x1F2E :=
      ⟨[1, 15, 2, 14], by decide, by decide, by decide, rfl⟩
    have hspells : SpellsImmediate (.load .x) "#$1f2E".toList 0x1F2E :=
      ⟨"1f2E".toList, .inr (by decide), by decide, hdigits, .inr (by decide)⟩
    obtain ⟨himmediate, -⟩ := (operand_of_written .empty hmode).1 rfl
    exact ⟨hmode, hspells, (himmediate 0x1F2E).mpr hspells⟩
  · have hmode : (Mnemonic.tfr.opcode? transfer.mode).isSome = true := by decide +kernel
    have hspells : SpellsPair "CC,DP".toList .cc .dp := by rfl
    obtain ⟨hpair, -⟩ := (operand_of_written .empty hmode).2 rfl
    exact ⟨hmode, hspells, (hpair .cc .dp).mpr hspells⟩

end Teach6809
