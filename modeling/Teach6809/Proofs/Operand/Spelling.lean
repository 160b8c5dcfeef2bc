import Teach6809.Proofs.Operand.Colon
import Teach6809.Proofs.Operand.Stored
import Teach6809.Proofs.Text.Numeral

/-!
# How operands are spelt

Which texts are immediate values, offsets from an index register and pairs of registers, said of the
texts alone: in which marks they have, how many digits and which number the digits denote. For each
of these shapes, what is read is spelt so and what is spelt so is read; for every other text the
kind of the error tells what is wrong with it.
-/

namespace Teach6809

open Text

namespace Operand

/-! ## Immediate values -/

/-- A number sign, one dollar sign or none, and one to four hexadecimal digits. Only the mnemonics
that load two bytes take a value that does not fit in one. -/
def SpellsImmediate (m : Mnemonic) (text : List Char) (value : Word) : Prop :=
  ∃ digits, (text = '#' :: digits ∨ text = '#' :: '$' :: digits) ∧ digits.length ≤ 4 ∧
    Denotes 16 digits value.toNat ∧ (value.toNat ≤ 0xFF ∨ m ∈ Mnemonic.wideLoads)

section Immediate

variable {m : Mnemonic} {text : String} {value : Word}

theorem SpellsImmediate.head {text : List Char} (h : SpellsImmediate m text value) :
    text.head? = some '#' := by
  obtain ⟨digits, rfl | rfl, -⟩ := h <;> rfl

/-- Four digits denote a word. -/
theorem word_toNat_of_denotes {digits : List Char} {n : Nat} (h : Denotes 16 digits n)
    (hlength : digits.length ≤ 4) : (UInt16.ofNat n).toNat = n := by
  have hlt := h.lt_pow (by omega)
  have hpow : 16 ^ digits.length ≤ 16 ^ 4 := Nat.pow_le_pow_right (by omega) hlength
  rw [UInt16.toNat_ofNat']
  omega

/-- A dollar sign is no digit. -/
theorem dropOne_of_denotes {digits : List Char} {n : Nat} (h : Denotes 16 digits n) :
    dropOne '$' digits = digits := by
  have hdollar := h.not_mem (Nat.le_refl 16) (show digitValue '$' = 16 by decide)
  cases digits with
  | nil => rfl
  | cons first rest =>
    refine if_neg fun hfirst => hdollar ?_
    rw [hfirst]
    exact List.mem_cons_self

theorem narrow_iff : ¬ (m.immediateWidth = 1 ∧ 0xFF < value.toNat) ↔
    value.toNat ≤ 0xFF ∨ m ∈ Mnemonic.wideLoads := by
  rw [← Mnemonic.immediateWidth_eq_two_iff]
  have hwidth := m.immediateWidth_eq
  omega

/-- What is read behind a number sign is spelt as an immediate value. -/
theorem exists_spellsImmediate {operand : Operand} (hhead : text.toList.head? = some '#')
    (h : readImmediate m text = .ok operand) :
    ∃ value, operand = .immediate value ∧ SpellsImmediate m text.toList value := by
  obtain ⟨rest, htext⟩ := List.head?_eq_some_iff.mp hhead
  have hrest : dropOne '#' text.toList = rest := by simp [htext, dropOne]
  rw [readImmediate, hrest] at h
  split at h
  · cases h
  · rename_i n hn
    obtain ⟨hdenotes, hlength⟩ := hexUpTo?_eq_some_iff.mp hn
    have hvalue := word_toNat_of_denotes hdenotes hlength
    split at h
    · cases h
    · rename_i hnarrow
      cases h
      refine ⟨_, rfl, dropOne '$' rest, ?_, hlength, by rwa [hvalue],
        narrow_iff.mp (by rwa [hvalue])⟩
      -- A dollar sign in front was taken off, or there was none.
      rw [htext]
      cases rest with
      | nil => exact .inl rfl
      | cons first others =>
        rw [dropOne]
        split
        · rename_i hdollar
          exact .inr (by rw [hdollar])
        · exact .inl rfl

theorem SpellsImmediate.readImmediate (h : SpellsImmediate m text.toList value) :
    readImmediate m text = .ok (.immediate value) := by
  obtain ⟨digits, hdigits, hlength, hdenotes, hfits⟩ := h
  have hdrop : dropOne '$' (dropOne '#' text.toList) = digits := by
    rcases hdigits with htext | htext
    · rw [htext]
      exact dropOne_of_denotes hdenotes
    · rw [htext]
      rfl
  rw [Operand.readImmediate, hdrop, hexUpTo?_eq_some_iff.mpr ⟨hdenotes, hlength⟩]
  dsimp only
  rw [if_neg (narrow_iff.mpr hfits), UInt16.ofNat_toNat]

theorem kind_of_readImmediate {cause : Cause} (h : readImmediate m text = .error cause) :
    cause.kind = .malformed := by
  unfold readImmediate at h
  split at h
  · cases h
    rfl
  · split at h
    · cases h
      rfl
    · cases h

theorem readImmediate_malformed_iff (hhead : text.toList.head? = some '#') :
    (readImmediate m text).mapError Cause.kind = .error .malformed ↔
      ∀ value, ¬ SpellsImmediate m text.toList value := by
  rw [Except.mapError_eq_error]
  constructor
  · intro h value hspells
    obtain ⟨cause, hcause, -⟩ := h
    rw [hspells.readImmediate] at hcause
    cases hcause
  · intro hnone
    cases hread : readImmediate m text with
    | error cause => exact ⟨cause, rfl, kind_of_readImmediate hread⟩
    | ok operand =>
      obtain ⟨value, -, hspells⟩ := exists_spellsImmediate hhead hread
      exact absurd hspells (hnone value)

end Immediate

/-! ## Offsets -/

/-- How an offset is written, and the number it is written for. -/
inductive SpellsOffset : List Char → Int → Prop
  /-- Nothing before the comma is no offset. -/
  | absent : SpellsOffset [] 0
  /-- A dollar sign with one or two hexadecimal digits. -/
  | hexadecimal {digits : List Char} {n : Nat} (hn : Denotes 16 digits n)
      (hlength : digits.length ≤ 2) : SpellsOffset ('$' :: digits) n
  /-- A decimal number of a byte, with any number of zeros in front. -/
  | decimal {digits : List Char} {n : Nat} (hn : Denotes 10 digits n) (hle : n ≤ 255) :
      SpellsOffset digits n
  /-- A minus sign and a decimal number that a signed byte can have. -/
  | negative {digits : List Char} {n : Nat} (hn : Denotes 10 digits n) (hle : n ≤ 128) :
      SpellsOffset ('-' :: digits) (-(n : Int))

/-- Marks other than the dollar and the minus sign are not in an offset. -/
theorem SpellsOffset.not_mem {text : List Char} {value : Int} {c : Char}
    (h : SpellsOffset text value) (hdigit : digitValue c = 16) (hdollar : c ≠ '$')
    (hminus : c ≠ '-') : c ∉ text := by
  cases h with
  | absent => exact List.not_mem_nil
  | hexadecimal hn hlength =>
    exact List.not_mem_cons_of_ne_of_not_mem hdollar (hn.not_mem (by omega) hdigit)
  | decimal hn hle => exact hn.not_mem (by omega) hdigit
  | negative hn hle =>
    exact List.not_mem_cons_of_ne_of_not_mem hminus (hn.not_mem (by omega) hdigit)

/-- What is read is the number that is written, modulo 256 and signed. -/
theorem readOffset_eq_ok_iff {text : List Char} {offset : Int8} :
    readOffset text = .ok offset ↔
      ∃ value, SpellsOffset text value ∧ offset.toInt = value.bmod 256 := by
  constructor
  · intro h
    unfold readOffset at h
    split at h
    · cases h
      exact ⟨0, .absent, rfl⟩
    · split at h
      · cases h
      · rename_i n hn
        cases h
        obtain ⟨hdenotes, hlength⟩ := hexUpTo?_eq_some_iff.mp hn
        exact ⟨n, .hexadecimal hdenotes hlength, Int8.toInt_ofNat'⟩
    · split at h
      · cases h
      · rename_i value hvalue
        split at h
        · rename_i hrange
          cases h
          refine ⟨value, ?_, Int8.toInt_ofInt⟩
          rcases integer?_eq_some_iff.mp hvalue with ⟨digits, n, rfl, hn, rfl⟩ | ⟨n, hn, rfl⟩
          · exact .negative hn (by omega)
          · exact .decimal hn (by omega)
        · cases h
  · rintro ⟨value, hspells, hoffset⟩
    cases hspells with
    | absent => exact congrArg Except.ok (Int8.toInt_inj.mp hoffset.symm)
    | @hexadecimal digits n hn hlength =>
      rw [readOffset, hexUpTo?_eq_some_iff.mpr ⟨hn, hlength⟩]
      exact congrArg Except.ok (Int8.toInt_inj.mp (Int8.toInt_ofNat'.trans hoffset.symm))
    | @decimal _ n hn hle =>
      have hread : integer? text = some (n : Int) := integer?_eq_some_iff.mpr (.inr ⟨n, hn, rfl⟩)
      -- Digits are neither nothing nor behind a dollar sign.
      unfold readOffset
      split
      · exact absurd rfl hn.ne_nil
      · exact absurd List.mem_cons_self (hn.not_mem (by omega) (by decide))
      · rw [hread]
        dsimp only
        rw [if_pos (by omega)]
        exact congrArg Except.ok (Int8.toInt_inj.mp (Int8.toInt_ofInt.trans hoffset.symm))
    | @negative digits n hn hle =>
      have hread : integer? ('-' :: digits) = some (-(n : Int)) :=
        integer?_eq_some_iff.mpr (.inl ⟨digits, n, rfl, hn, rfl⟩)
      unfold readOffset
      split
      · rename_i hnil
        cases hnil
      · rename_i hdollar
        cases hdollar
      · rw [hread]
        dsimp only
        rw [if_pos (by omega)]
        exact congrArg Except.ok (Int8.toInt_inj.mp (Int8.toInt_ofInt.trans hoffset.symm))

theorem kind_of_readOffset {text : List Char} {cause : Cause}
    (h : readOffset text = .error cause) : cause.kind = .malformed := by
  unfold readOffset at h
  split at h
  · cases h
  · split at h
    · cases h
      rfl
    · cases h
  · split at h
    · cases h
      rfl
    · split at h
      · cases h
      · cases h
        rfl

/-! ## Indexed operands -/

/-- An offset, a comma and the name of an index register. -/
def SpellsIndexed (text : List Char) (offset : Int8) (base : IndexRegister) : Prop :=
  ∃ before value, text = before ++ ',' :: base.name.toList ∧ SpellsOffset before value ∧
    offset.toInt = value.bmod 256

/-- The name of an index register is all that stands behind the first comma. -/
def HasBase (text : List Char) (base : IndexRegister) : Prop :=
  ∃ before, ',' ∉ before ∧ text = before ++ ',' :: base.name.toList

section Indexed

variable {text : String} {offset : Int8} {base : IndexRegister}

/-- There is a comma, and there is no other one. -/
theorem SpellsIndexed.hasBase {text : List Char} (h : SpellsIndexed text offset base) :
    HasBase text base := by
  obtain ⟨before, value, htext, hvalue, -⟩ := h
  exact ⟨before, hvalue.not_mem (by decide) (by decide) (by decide), htext⟩

theorem SpellsIndexed.head {text : List Char} (h : SpellsIndexed text offset base) :
    text.head? ≠ some '#' := by
  obtain ⟨before, value, rfl, hvalue, -⟩ := h
  have hnone : '#' ∉ before := hvalue.not_mem (by decide) (by decide) (by decide)
  cases before with
  | nil => simp
  | cons first rest =>
    rw [List.cons_append, List.head?_cons, ne_eq, Option.some.injEq]
    rintro rfl
    exact hnone List.mem_cons_self

theorem HasBase.comma_mem {text : List Char} (h : HasBase text base) : ',' ∈ text := by
  obtain ⟨before, -, rfl⟩ := h
  simp

/-- A text with a base is cut at its first comma. -/
theorem readIndexed_of_base {before : List Char} (hbefore : ',' ∉ before)
    (htext : text.toList = before ++ ',' :: base.name.toList) :
    readIndexed text = (readOffset before).map fun value => .indexed value base := by
  rw [readIndexed, cutAt?_eq_some_iff.mpr ⟨htext, hbefore⟩]
  dsimp only
  rw [String.ofList_toList, IndexRegister.ofName?_name]

theorem readIndexed_of_no_base (hcomma : ',' ∈ text.toList)
    (hbase : ∀ base, ¬ HasBase text.toList base) :
    readIndexed text = .error (.invalidIndex text) := by
  cases hcut : cutAt? ',' text.toList with
  | none => exact absurd hcomma (cutAt?_eq_none_iff.mp hcut)
  | some parts =>
    obtain ⟨before, name⟩ := parts
    obtain ⟨htext, hbefore⟩ := cutAt?_eq_some_iff.mp hcut
    cases hname : IndexRegister.ofName? (String.ofList name) with
    | none => simp only [readIndexed, hcut, hname]
    | some base =>
      refine absurd ⟨before, hbefore, ?_⟩ (hbase base)
      rw [IndexRegister.name_of_ofName? hname, String.toList_ofList, htext]

/-- What is read as an indexed operand is spelt so, and has the base it is spelt with. -/
theorem exists_spellsIndexed {operand : Operand} (hcomma : ',' ∈ text.toList)
    (h : readIndexed text = .ok operand) :
    ∃ offset base, operand = .indexed offset base ∧ SpellsIndexed text.toList offset base := by
  by_cases hbase : ∃ base, HasBase text.toList base
  · obtain ⟨base, before, hbefore, htext⟩ := hbase
    rw [readIndexed_of_base hbefore htext] at h
    obtain ⟨offset, hoffset, rfl⟩ := Except.map_eq_ok.mp h
    obtain ⟨value, hvalue, hsigned⟩ := readOffset_eq_ok_iff.mp hoffset
    exact ⟨offset, base, rfl, before, value, htext, hvalue, hsigned⟩
  · rw [readIndexed_of_no_base hcomma (not_exists.mp hbase)] at h
    cases h

theorem SpellsIndexed.readIndexed (h : SpellsIndexed text.toList offset base) :
    readIndexed text = .ok (.indexed offset base) := by
  obtain ⟨before, value, htext, hvalue, hsigned⟩ := h
  have hbefore : ',' ∉ before := hvalue.not_mem (by decide) (by decide) (by decide)
  rw [readIndexed_of_base hbefore htext, readOffset_eq_ok_iff.mpr ⟨value, hvalue, hsigned⟩]
  rfl

/-- The base is what is looked at first. -/
theorem kind_of_readIndexed {cause : Cause} (hcomma : ',' ∈ text.toList)
    (h : readIndexed text = .error cause) :
    cause.kind = .badIndexRegister ∧ (∀ base, ¬ HasBase text.toList base) ∨
      cause.kind = .malformed ∧ ∃ base, HasBase text.toList base := by
  by_cases hbase : ∃ base, HasBase text.toList base
  · right
    refine ⟨?_, hbase⟩
    obtain ⟨base, before, hbefore, htext⟩ := hbase
    rw [readIndexed_of_base hbefore htext] at h
    cases hoffset : readOffset before with
    | ok offset =>
      rw [hoffset] at h
      cases h
    | error problem =>
      rw [hoffset] at h
      cases h
      exact kind_of_readOffset hoffset
  · left
    rw [readIndexed_of_no_base hcomma (not_exists.mp hbase)] at h
    cases h
    exact ⟨rfl, not_exists.mp hbase⟩

theorem readIndexed_badIndexRegister_iff (hcomma : ',' ∈ text.toList) :
    (readIndexed text).mapError Cause.kind = .error .badIndexRegister ↔
      ∀ base, ¬ HasBase text.toList base := by
  rw [Except.mapError_eq_error]
  constructor
  · intro h
    obtain ⟨cause, hcause, hkind⟩ := h
    rcases kind_of_readIndexed hcomma hcause with ⟨-, hnone⟩ | ⟨hother, -⟩
    · exact hnone
    · rw [hother] at hkind
      cases hkind
  · intro hnone
    exact ⟨_, readIndexed_of_no_base hcomma hnone, rfl⟩

theorem readIndexed_malformed_iff (hcomma : ',' ∈ text.toList) :
    (readIndexed text).mapError Cause.kind = .error .malformed ↔
      (∃ base, HasBase text.toList base) ∧
        ∀ offset base, ¬ SpellsIndexed text.toList offset base := by
  rw [Except.mapError_eq_error]
  constructor
  · intro h
    obtain ⟨cause, hcause, hkind⟩ := h
    rcases kind_of_readIndexed hcomma hcause with ⟨hother, -⟩ | ⟨-, hbase⟩
    · rw [hother] at hkind
      cases hkind
    · refine ⟨hbase, fun offset base hspells => ?_⟩
      rw [hspells.readIndexed] at hcause
      cases hcause
  · intro h
    obtain ⟨⟨base, hbase⟩, hnone⟩ := h
    cases hread : readIndexed text with
    | ok operand =>
      obtain ⟨offset, base, -, hspells⟩ := exists_spellsIndexed hcomma hread
      exact absurd hspells (hnone offset base)
    | error cause =>
      rcases kind_of_readIndexed hcomma hread with ⟨-, hother⟩ | ⟨hkind, -⟩
      · exact absurd hbase (hother base)
      · exact ⟨cause, rfl, hkind⟩

end Indexed

/-! ## Register pairs -/

/-- One or two letters. -/
def IsWord (text : List Char) : Prop :=
  (text.length = 1 ∨ text.length = 2) ∧ ∀ c ∈ text, 'A' ≤ c ∧ c ≤ 'Z'

/-- Two words with a comma between them. -/
def SpellsWords (text : List Char) : Prop :=
  ∃ left right, IsWord left ∧ IsWord right ∧ text = left ++ ',' :: right

/-- The names of two registers with a comma between them. -/
def SpellsPair (text : List Char) (source target : Register) : Prop :=
  text = source.name.toList ++ ',' :: target.name.toList

theorem isRegisterWord_iff {text : List Char} : isRegisterWord text = true ↔ IsWord text := by
  have hletter (c : Char) : c.isUpper = true ↔ 'A' ≤ c ∧ c ≤ 'Z' := decide_eq_true_iff
  simp only [isRegisterWord, IsWord, Bool.and_eq_true, Bool.or_eq_true, beq_iff_eq,
    List.all_eq_true, hletter]

theorem IsWord.comma_not_mem {text : List Char} (h : IsWord text) : ',' ∉ text :=
  fun hcomma => absurd (h.2 ',' hcomma) (by decide)

/-- Every register is named by a word. -/
theorem isWord_name (r : Register) : IsWord r.name.toList :=
  isRegisterWord_iff.mp (by cases r <;> decide)

theorem readRegister_eq_ok_iff {name : List Char} {r : Register} :
    readRegister name = .ok r ↔ name = r.name.toList := by
  constructor
  · intro h
    unfold readRegister at h
    split at h
    · cases h
    · rename_i found hfound
      cases h
      unfold Register.ofName? at hfound
      have hname := eq_of_beq
        (List.find?_some (p := fun r : Register => r.name == String.ofList name) hfound)
      rw [hname, String.toList_ofList]
  · rintro rfl
    rw [readRegister, String.ofList_toList, Register.ofName?_name]

theorem kind_of_readRegister {name : List Char} {cause : Cause}
    (h : readRegister name = .error cause) : cause.kind = .unknownRegister := by
  unfold readRegister at h
  split at h
  · cases h
    rfl
  · cases h

section Pair

variable {m : Mnemonic} {text : String} {source target : Register}

theorem SpellsPair.words {text : List Char} (h : SpellsPair text source target) :
    SpellsWords text :=
  ⟨_, _, isWord_name source, isWord_name target, h⟩

/-- Words are looked up as registers, the first one first. -/
theorem readPair_of_words {left right : List Char} (hleft : IsWord left) (hright : IsWord right)
    (htext : text.toList = left ++ ',' :: right) :
    readPair m text = do
      let source ← readRegister left
      let target ← readRegister right
      return .pair source target := by
  rw [readPair, cutAt?_eq_some_iff.mpr ⟨htext, hleft.comma_not_mem⟩]
  dsimp only
  rw [isRegisterWord_iff.mpr hleft, isRegisterWord_iff.mpr hright]
  rfl

theorem readPair_of_no_words (h : ¬ SpellsWords text.toList) :
    readPair m text = .error (.malformedPair m) := by
  unfold readPair
  split
  · rfl
  · rename_i left right hcut
    refine if_neg fun hwords => h ?_
    obtain ⟨hleft, hright⟩ := Bool.and_eq_true_iff.mp hwords
    exact ⟨left, right, isRegisterWord_iff.mp hleft, isRegisterWord_iff.mp hright,
      (cutAt?_eq_some_iff.mp hcut).1⟩

/-- What is read as a pair is spelt so. -/
theorem exists_spellsPair {operand : Operand} (h : readPair m text = .ok operand) :
    ∃ source target, operand = .pair source target ∧ SpellsPair text.toList source target := by
  by_cases hwords : SpellsWords text.toList
  · obtain ⟨left, right, hleft, hright, htext⟩ := hwords
    rw [readPair_of_words hleft hright htext] at h
    obtain ⟨source, hsource, h⟩ := Except.bind_eq_ok.mp h
    obtain ⟨target, htarget, h⟩ := Except.bind_eq_ok.mp h
    cases h
    refine ⟨source, target, rfl, ?_⟩
    rw [SpellsPair, htext, readRegister_eq_ok_iff.mp hsource, readRegister_eq_ok_iff.mp htarget]
  · rw [readPair_of_no_words hwords] at h
    cases h

theorem SpellsPair.readPair (h : SpellsPair text.toList source target) :
    readPair m text = .ok (.pair source target) := by
  rw [readPair_of_words (isWord_name source) (isWord_name target) h,
    readRegister_eq_ok_iff.mpr rfl, readRegister_eq_ok_iff.mpr rfl]
  rfl

theorem kind_of_readPair {cause : Cause} (h : readPair m text = .error cause) :
    cause.kind = .malformed ∧ ¬ SpellsWords text.toList ∨
      cause.kind = .unknownRegister ∧ SpellsWords text.toList := by
  by_cases hwords : SpellsWords text.toList
  · right
    refine ⟨?_, hwords⟩
    obtain ⟨left, right, hleft, hright, htext⟩ := hwords
    rw [readPair_of_words hleft hright htext] at h
    rcases Except.bind_eq_error.mp h with h | ⟨source, -, h⟩
    · exact kind_of_readRegister h
    · rcases Except.bind_eq_error.mp h with h | ⟨target, -, h⟩
      · exact kind_of_readRegister h
      · cases h
  · left
    rw [readPair_of_no_words hwords] at h
    cases h
    exact ⟨rfl, hwords⟩

theorem readPair_malformed_iff :
    (readPair m text).mapError Cause.kind = .error .malformed ↔ ¬ SpellsWords text.toList := by
  rw [Except.mapError_eq_error]
  constructor
  · intro h
    obtain ⟨cause, hcause, hkind⟩ := h
    rcases kind_of_readPair hcause with ⟨-, hnone⟩ | ⟨hother, -⟩
    · exact hnone
    · rw [hother] at hkind
      cases hkind
  · intro hnone
    exact ⟨_, readPair_of_no_words hnone, rfl⟩

theorem readPair_unknownRegister_iff :
    (readPair m text).mapError Cause.kind = .error .unknownRegister ↔
      SpellsWords text.toList ∧ ∀ source target, ¬ SpellsPair text.toList source target := by
  rw [Except.mapError_eq_error]
  constructor
  · intro h
    obtain ⟨cause, hcause, hkind⟩ := h
    rcases kind_of_readPair hcause with ⟨hother, -⟩ | ⟨-, hwords⟩
    · rw [hother] at hkind
      cases hkind
    · refine ⟨hwords, fun source target hspells => ?_⟩
      rw [hspells.readPair] at hcause
      cases hcause
  · intro h
    obtain ⟨hwords, hnone⟩ := h
    cases hread : readPair m text with
    | ok operand =>
      obtain ⟨source, target, -, hspells⟩ := exists_spellsPair hread
      exact absurd hspells (hnone source target)
    | error cause =>
      rcases kind_of_readPair hread with ⟨-, hother⟩ | ⟨hkind, -⟩
      · exact absurd hwords hother
      · exact ⟨cause, rfl, hkind⟩

end Pair

end Operand

end Teach6809
