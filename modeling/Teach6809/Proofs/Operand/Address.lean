import Teach6809.Proofs.Operand.Grammar
import Teach6809.Proofs.Text.Bytes

/-!
# Addresses as operands

A text behind a dollar sign is an address. Its length decides whether it is a direct or an extended
one, and its digits which. The length is taken behind the first dollar sign, while the digits are
looked for behind all of them. Main statement: `address_of_written`, which texts are which address:
behind one dollar sign the number of digits decides, behind several the other signs count as well.
-/

namespace Teach6809

open Text

namespace Operand

/-! ## Dollar signs and digits -/

/-- A dollar sign, so many more of them, and hexadecimal digits that denote a number. -/
def SpellsAddress (text : List Char) (extra : Nat) (digits : List Char) (n : Nat) : Prop :=
  text = '$' :: (List.replicate extra '$' ++ digits) ∧ Denotes 16 digits n

variable {text : String} {rest digits : List Char} {extra n : Nat}

/-- What is counted for the mode are the dollar signs behind the first one and the digits. -/
theorem SpellsAddress.utf8Length_eq (h : SpellsAddress ('$' :: rest) extra digits n) :
    utf8Length rest = extra + digits.length := by
  obtain ⟨htext, hdenotes⟩ := h
  rw [List.cons.injEq] at htext
  have hascii : ∀ c ∈ rest, c.toNat ≤ 127 := by
    intro c hc
    rw [htext.2, List.mem_append] at hc
    rcases hc with hc | hc
    · rw [List.eq_of_mem_replicate hc]
      decide
    · exact hdenotes.toNat_le (Nat.le_refl 16) c hc
  rw [utf8Length_of_ascii hascii, htext.2, List.length_append, List.length_replicate]

/-- What is read are the digits behind all dollar signs. -/
theorem SpellsAddress.dropWhile {text : List Char} (h : SpellsAddress text extra digits n) :
    text.dropWhile (· == '$') = digits := by
  obtain ⟨rfl, hdenotes⟩ := h
  have hdollar := hdenotes.not_mem (Nat.le_refl 16) (show digitValue '$' = 16 by decide)
  have hdigits : digits.dropWhile (· == '$') = digits := by
    cases digits with
    | nil => rfl
    | cons first others =>
      refine List.dropWhile_cons_of_neg fun hfirst => hdollar ?_
      rw [eq_of_beq hfirst]
      exact List.mem_cons_self
  rw [← List.cons_append, ← List.replicate_succ, List.dropWhile_append_of_pos, hdigits]
  intro c hc
  rw [List.eq_of_mem_replicate hc]
  rfl

/-- Digits behind the dollar signs spell an address. -/
theorem exists_spellsAddress
    (h : Denotes 16 (('$' :: rest).dropWhile (· == '$')) n) :
    ∃ extra, SpellsAddress ('$' :: rest) extra (('$' :: rest).dropWhile (· == '$')) n := by
  refine ⟨(rest.takeWhile (· == '$')).length, ?_, h⟩
  have hdollars : rest.takeWhile (· == '$') =
      List.replicate (rest.takeWhile (· == '$')).length '$' := by
    apply List.eq_replicate_length.mpr
    intro c hc
    have hdollar := List.mem_takeWhile_imp hc
    exact eq_of_beq hdollar
  rw [← hdollars, List.dropWhile_cons_of_pos rfl, List.takeWhile_append_dropWhile]

/-! ## Readers -/

/-- Two digits denote a byte. -/
theorem byte_toNat_of_denotes (h : Denotes 16 digits n) (hlength : digits.length ≤ 2) :
    (UInt8.ofNat n).toNat = n := by
  have hlt := h.lt_pow (by omega)
  have hpow : 16 ^ digits.length ≤ 16 ^ 2 := Nat.pow_le_pow_right (by omega) hlength
  rw [UInt8.toNat_ofNat']
  omega

theorem readDirect_eq_ok_iff {low : Byte} :
    readDirect text = .ok (.direct low) ↔
      Denotes 16 (text.toList.dropWhile (· == '$')) low.toNat ∧
        (text.toList.dropWhile (· == '$')).length ≤ 2 := by
  rw [← hexUpTo?_eq_some_iff, readDirect]
  constructor
  · intro h
    split at h
    · cases h
    · rename_i n hn
      cases h
      obtain ⟨hdenotes, hlength⟩ := hexUpTo?_eq_some_iff.mp hn
      rw [hn, byte_toNat_of_denotes hdenotes hlength]
  · intro h
    rw [h]
    dsimp only
    rw [UInt8.ofNat_toNat]

theorem readExtended_eq_ok_iff {address : Word} :
    readExtended text = .ok (.extended address) ↔
      Denotes 16 (text.toList.dropWhile (· == '$')) address.toNat ∧
        (text.toList.dropWhile (· == '$')).length ≤ 4 := by
  rw [← hexUpTo?_eq_some_iff, readExtended]
  constructor
  · intro h
    split at h
    · cases h
    · rename_i n hn
      cases h
      obtain ⟨hdenotes, hlength⟩ := hexUpTo?_eq_some_iff.mp hn
      rw [hn, word_toNat_of_denotes hdenotes hlength]
  · intro h
    rw [h]
    dsimp only
    rw [UInt16.ofNat_toNat]

theorem readDirect_malformed_iff :
    (readDirect text).mapError Cause.kind = .error .malformed ↔
      ∀ n, Denotes 16 (text.toList.dropWhile (· == '$')) n →
        2 < (text.toList.dropWhile (· == '$')).length := by
  rw [← hexUpTo?_eq_none_iff, readDirect]
  cases hexUpTo? 2 (text.toList.dropWhile (· == '$')) with
  | none => exact iff_of_true rfl rfl
  | some n => exact iff_of_false (fun h => by cases h) (fun h => by cases h)

theorem readExtended_malformed_iff :
    (readExtended text).mapError Cause.kind = .error .malformed ↔
      ∀ n, Denotes 16 (text.toList.dropWhile (· == '$')) n →
        4 < (text.toList.dropWhile (· == '$')).length := by
  rw [← hexUpTo?_eq_none_iff, readExtended]
  cases hexUpTo? 4 (text.toList.dropWhile (· == '$')) with
  | none => exact iff_of_true rfl rfl
  | some n => exact iff_of_false (fun h => by cases h) (fun h => by cases h)

/-- With one dollar sign all the rest are digits. -/
theorem spellsAddress_iff_of_head (hhead : rest.head? ≠ some '$') :
    SpellsAddress ('$' :: rest) extra digits n ↔
      extra = 0 ∧ digits = rest ∧ Denotes 16 rest n := by
  rw [SpellsAddress, List.cons.injEq]
  constructor
  · intro h
    obtain ⟨⟨-, hrest⟩, hdenotes⟩ := h
    cases extra with
    | zero =>
      rw [List.replicate_zero, List.nil_append] at hrest
      subst hrest
      exact ⟨rfl, rfl, hdenotes⟩
    | succ extra =>
      rw [hrest] at hhead
      exact absurd rfl hhead
  · intro h
    obtain ⟨rfl, rfl, hdenotes⟩ := h
    exact ⟨⟨rfl, rfl⟩, hdenotes⟩

end Operand

/-! ## Verdicts -/

namespace Instruction

variable {labels : LabelTable} {m : Mnemonic} {text : String} {rest : List Char}

theorem takesPair_of_direct (h : (m.opcode? .direct).isSome) : m.takesPair = false := by
  have hall : ∀ m ∈ Mnemonic.all, (m.opcode? .direct).isSome → m.takesPair = false := by decide
  exact hall m m.mem_all h

/-- The reader is chosen by the bytes behind the first dollar sign. -/
theorem verdict_of_dollar (hdirect : (m.opcode? .direct).isSome)
    (hextended : (m.opcode? .extended).isSome) (hdollar : text.toList = '$' :: rest)
    (hcomma : ',' ∉ rest) :
    (written m text).verdict labels =
      (if utf8Length rest ≤ 2 then Operand.readDirect text
        else Operand.readExtended text).mapError Cause.kind := by
  have htext : text ≠ "" := by
    rintro rfl
    cases hdollar
  -- The mode is chosen by what follows one mark, in bytes, before any digit is looked at.
  have hmode : (written m text).mode =
      if utf8Length rest ≤ 2 then .direct else .extended := by
    rw [mode_written, takesPair_of_direct hdirect, hdollar]
    simp [AddressingMode.ofText, hcomma]
  split
  · rename_i hshort
    rw [if_pos hshort] at hmode
    rw [verdict_written (by rwa [hmode]) htext, hmode]
    rfl
  · rename_i hlong
    rw [if_neg hlong] at hmode
    rw [verdict_written (by rwa [hmode]) htext, hmode]
    rfl

section Dollar

variable (hdirect : (m.opcode? .direct).isSome) (hextended : (m.opcode? .extended).isSome)
  (hdollar : text.toList = '$' :: rest) (hcomma : ',' ∉ rest)

include hdirect hextended hdollar hcomma

theorem verdict_direct_iff {low : Byte} :
    (written m text).verdict labels = .ok (.direct low) ↔
      ∃ extra digits, Operand.SpellsAddress text.toList extra digits low.toNat ∧
        extra + digits.length ≤ 2 := by
  rw [verdict_of_dollar hdirect hextended hdollar hcomma, Except.mapError_eq_ok]
  constructor
  · intro h
    split at h
    · rename_i hshort
      obtain ⟨hdenotes, -⟩ := Operand.readDirect_eq_ok_iff.mp h
      rw [hdollar] at hdenotes ⊢
      obtain ⟨extra, hspells⟩ := Operand.exists_spellsAddress hdenotes
      rw [hspells.utf8Length_eq] at hshort
      exact ⟨extra, _, hspells, hshort⟩
    · cases Operand.mode_of_readExtended h
  · rintro ⟨extra, digits, hspells, hshort⟩
    -- Further marks count for the length and are dropped from the digits.
    have hdigits := hspells.dropWhile
    have hdenotes := hspells.2
    rw [hdollar] at hspells
    rw [if_pos (by rwa [hspells.utf8Length_eq]), Operand.readDirect_eq_ok_iff, hdigits]
    exact ⟨hdenotes, by omega⟩

theorem verdict_extended_iff {address : Word} :
    (written m text).verdict labels = .ok (.extended address) ↔
      ∃ extra digits, Operand.SpellsAddress text.toList extra digits address.toNat ∧
        digits.length ≤ 4 ∧ 2 < extra + digits.length := by
  rw [verdict_of_dollar hdirect hextended hdollar hcomma, Except.mapError_eq_ok]
  constructor
  · intro h
    split at h
    · cases Operand.mode_of_readDirect h
    · rename_i hlong
      obtain ⟨hdenotes, hlength⟩ := Operand.readExtended_eq_ok_iff.mp h
      rw [hdollar] at hdenotes hlength ⊢
      obtain ⟨extra, hspells⟩ := Operand.exists_spellsAddress hdenotes
      rw [hspells.utf8Length_eq] at hlong
      exact ⟨extra, _, hspells, hlength, by omega⟩
  · rintro ⟨extra, digits, hspells, hlength, hlong⟩
    have hdigits := hspells.dropWhile
    have hdenotes := hspells.2
    rw [hdollar] at hspells
    rw [if_neg (by rw [hspells.utf8Length_eq]; omega), Operand.readExtended_eq_ok_iff, hdigits]
    exact ⟨hdenotes, hlength⟩

/-- What spells no address of at most four digits is malformed, in either mode. -/
theorem verdict_malformed_iff :
    (written m text).verdict labels = .error .malformed ↔
      ∀ extra digits n, Operand.SpellsAddress text.toList extra digits n → 4 < digits.length := by
  rw [verdict_of_dollar hdirect hextended hdollar hcomma]
  constructor
  · intro h extra digits n hspells
    have hdigits := hspells.dropWhile
    have hdenotes := hspells.2
    rw [hdollar] at hspells
    split at h
    · rename_i hshort
      -- More than two digits would have made the address extended.
      have hlong := Operand.readDirect_malformed_iff.mp h n (by rwa [hdigits])
      rw [hspells.utf8Length_eq] at hshort
      rw [hdigits] at hlong
      omega
    · have hlong := Operand.readExtended_malformed_iff.mp h n (by rwa [hdigits])
      rwa [hdigits] at hlong
  · intro hnone
    have hlong : ∀ n, Denotes 16 (text.toList.dropWhile (· == '$')) n →
        4 < (text.toList.dropWhile (· == '$')).length := by
      intro n hn
      rw [hdollar] at hn hnone ⊢
      obtain ⟨extra, hspells⟩ := Operand.exists_spellsAddress hn
      exact hnone extra _ n hspells
    split
    · refine Operand.readDirect_malformed_iff.mpr fun n hn => ?_
      have hfour := hlong n hn
      omega
    · exact Operand.readExtended_malformed_iff.mpr hlong

end Dollar

end Instruction

open Operand Instruction in
/-- Behind dollar signs, at most four hexadecimal digits are an address and everything else is
malformed. The address is direct if no more than two characters follow the first dollar sign. If it
is the only one, these are the digits: one or two make the address direct, three or four extended.
-/
theorem address_of_written {m : Mnemonic} {text : String} {rest : List Char} (labels : LabelTable)
    (hdirect : (m.opcode? .direct).isSome) (hextended : (m.opcode? .extended).isSome)
    (hdollar : text.toList = '$' :: rest) (hcomma : ',' ∉ rest) :
    (∀ low, (written m text).verdict labels = .ok (.direct low) ↔
      ∃ extra digits, SpellsAddress text.toList extra digits low.toNat ∧
        extra + digits.length ≤ 2) ∧
    (∀ address, (written m text).verdict labels = .ok (.extended address) ↔
      ∃ extra digits, SpellsAddress text.toList extra digits address.toNat ∧
        digits.length ≤ 4 ∧ 2 < extra + digits.length) ∧
    ((written m text).verdict labels = .error .malformed ↔
      ∀ extra digits n, SpellsAddress text.toList extra digits n → 4 < digits.length) ∧
    (rest.head? ≠ some '$' →
      (∀ low, (written m text).verdict labels = .ok (.direct low) ↔
        Denotes 16 rest low.toNat ∧ rest.length ≤ 2) ∧
      (∀ address, (written m text).verdict labels = .ok (.extended address) ↔
        Denotes 16 rest address.toNat ∧ 2 < rest.length ∧ rest.length ≤ 4) ∧
      ((written m text).verdict labels = .error .malformed ↔
        ∀ n, Denotes 16 rest n → 4 < rest.length)) := by
  refine ⟨fun low => verdict_direct_iff hdirect hextended hdollar hcomma,
    fun address => verdict_extended_iff hdirect hextended hdollar hcomma,
    verdict_malformed_iff hdirect hextended hdollar hcomma, ?_⟩
  -- With a single mark the digits are all that is left, which leaves nothing to choose.
  intro hhead
  refine ⟨?_, ?_, ?_⟩
  · intro low
    rw [verdict_direct_iff hdirect hextended hdollar hcomma, hdollar]
    simp [spellsAddress_iff_of_head hhead, and_assoc]
  · intro address
    rw [verdict_extended_iff hdirect hextended hdollar hcomma, hdollar]
    simp [spellsAddress_iff_of_head hhead, and_assoc, and_comm]
  · rw [verdict_malformed_iff hdirect hextended hdollar hcomma, hdollar]
    constructor
    · intro h n hn
      exact h 0 rest n ((spellsAddress_iff_of_head hhead).mpr ⟨rfl, rfl, hn⟩)
    · intro h extra digits n hspells
      obtain ⟨-, rfl, hn⟩ := (spellsAddress_iff_of_head hhead).mp hspells
      exact h n hn

open Instruction in
/-- A zero in front counts as a digit and makes the address extended. -/
theorem address_of_written_zero :
    let text := "$0F3"
    ((Mnemonic.load .a).opcode? .direct).isSome = true ∧
      ((Mnemonic.load .a).opcode? .extended).isSome = true ∧
      text.toList = ['$', '0', 'F', '3'] ∧ ',' ∉ ['0', 'F', '3'] ∧
      (written (.load .a) text).verdict .empty = .ok (.extended 0xF3) := by
  intro text
  have hdirect : ((Mnemonic.load .a).opcode? .direct).isSome = true := by decide
  have hextended : ((Mnemonic.load .a).opcode? .extended).isSome = true := by decide
  have hdollar : text.toList = ['$', '0', 'F', '3'] := by decide
  have hcomma : ',' ∉ ['0', 'F', '3'] := by decide
  have hdigits : Denotes 16 ['0', 'F', '3'] 0xF3 :=
    ⟨[0, 15, 3], by decide, by decide, by decide, rfl⟩
  obtain ⟨-, -, -, hone⟩ := address_of_written .empty hdirect hextended hdollar hcomma
  obtain ⟨-, hlong, -⟩ := hone (by decide)
  exact ⟨hdirect, hextended, hdollar, hcomma,
    (hlong 0xF3).mpr ⟨hdigits, by decide, by decide⟩⟩

open Instruction in
/-- A second dollar sign is taken for no digit by the reader, so what should be no address is one,
and with a third one two digits are an extended address. -/
theorem address_of_written_doubled :
    ((Mnemonic.load .a).opcode? .direct).isSome = true ∧
      ((Mnemonic.load .a).opcode? .extended).isSome = true ∧
      (∀ n, ¬ Denotes 16 "$1".toList n) ∧
      (written (.load .a) "$$1").verdict .empty = .ok (.direct 0x01) ∧
      (written (.load .a) "$$$12").verdict .empty = .ok (.extended 0x12) := by
  refine ⟨by decide, by decide, ?_, by decide +kernel, by decide +kernel⟩
  intro n hn
  exact hn.not_mem (Nat.le_refl 16) (show digitValue '$' = 16 by decide) (by decide)

end Teach6809
