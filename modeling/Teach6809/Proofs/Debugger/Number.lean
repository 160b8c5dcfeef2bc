import Teach6809.Debugger.Command
import Teach6809.Proofs.Text.Numeral

/-!
# Numbers in commands

A number is written in decimal digits, or in hexadecimal ones behind `$`, `0x` or `0X`
(`Command.SpellsNumber`). The reader goes further in one way and less far in another: it also takes
a plus sign in front of the digits, and a number of more than 32 bits is malformed to it, not too
large. Main statement: `number_of_argument`, the exact verdict on every text.
-/

namespace Teach6809

open Text

namespace Command

/-! ## The grammar -/

/-- The marks of the bases, each with its base. Decimal digits need none. -/
def baseMarks : List (Nat × List Char) :=
  [(10, []), (16, ['$']), (16, ['0', 'x']), (16, ['0', 'X'])]

/-- A text is the mark of a base, a sign, and digits of the base that denote a number. -/
def SpellsNumber (sign text : List Char) (n : Nat) : Prop :=
  ∃ base mark digits, (base, mark) ∈ baseMarks ∧ text = mark ++ (sign ++ digits) ∧
    Denotes base digits n

/-- What the reader takes for a number: digits with or without a plus sign. -/
def ReadsAs (text : List Char) (n : Nat) : Prop :=
  SpellsNumber [] text n ∨ SpellsNumber ['+'] text n

variable {sign text digits : List Char} {maximum n : Nat} {argument : String}

/-- The bases that are marked have no digits above those of hexadecimal numbers. -/
theorem base_le_of_mem {base : Nat} {mark : List Char} (h : (base, mark) ∈ baseMarks) :
    base ≤ 16 := by
  have hall : ∀ entry ∈ baseMarks, entry.1 ≤ 16 := by decide
  exact hall _ h

/-- Digits without a sign have no plus sign. -/
theorem SpellsNumber.plus_not_mem (h : SpellsNumber [] text n) : '+' ∉ text := by
  obtain ⟨base, mark, digits, hmark, rfl, hdenotes⟩ := h
  have hmarks : ∀ entry ∈ baseMarks, '+' ∉ entry.2 := by decide
  have hdigits := hdenotes.not_mem (base_le_of_mem hmark) (show digitValue '+' = 16 by decide)
  rw [List.mem_append, not_or]
  exact ⟨hmarks _ hmark, hdigits⟩

/-! ## The mark of the base -/

/-- A text is the mark of the base that is found, and the rest. -/
theorem exists_mark (text : List Char) :
    ∃ mark, ((numberBase text).1, mark) ∈ baseMarks ∧ text = mark ++ (numberBase text).2 := by
  unfold numberBase
  split
  · exact ⟨['$'], by simp [baseMarks], rfl⟩
  · exact ⟨['0', 'x'], by simp [baseMarks], rfl⟩
  · exact ⟨['0', 'X'], by simp [baseMarks], rfl⟩
  · exact ⟨[], by simp [baseMarks], rfl⟩

/-- Without the characters of marks a text is taken as decimal. -/
theorem numberBase_of_not_mem (hdollar : '$' ∉ text) (hlower : 'x' ∉ text) (hupper : 'X' ∉ text) :
    numberBase text = (10, text) := by
  unfold numberBase
  split
  · simp at hdollar
  · simp at hlower
  · simp at hupper
  · rfl

/-- The mark that is found is the only one that the text can be spelt with. -/
theorem numberBase_of_spells {base : Nat} {mark : List Char} (hsign : sign = [] ∨ sign = ['+'])
    (hmark : (base, mark) ∈ baseMarks) (hdenotes : Denotes base digits n) :
    numberBase (mark ++ (sign ++ digits)) = (base, sign ++ digits) := by
  simp only [baseMarks, List.mem_cons, Prod.mk.injEq, List.not_mem_nil, or_false] at hmark
  obtain ⟨rfl, rfl⟩ | ⟨rfl, rfl⟩ | ⟨rfl, rfl⟩ | ⟨rfl, rfl⟩ := hmark
  · have hnone (c : Char) (hc : digitValue c = 16) (hplus : c ≠ '+') : c ∉ sign ++ digits := by
      rw [List.mem_append, not_or]
      refine ⟨?_, hdenotes.not_mem (by omega) hc⟩
      rcases hsign with rfl | rfl <;> simp [hplus]
    exact numberBase_of_not_mem (hnone '$' (by decide) (by decide))
      (hnone 'x' (by decide) (by decide)) (hnone 'X' (by decide) (by decide))
  · rfl
  · rfl
  · rfl

/-- The mark decides the base, and the digits follow the sign. -/
theorem spellsNumber_iff (hsign : sign = [] ∨ sign = ['+']) :
    SpellsNumber sign text n ↔
      ∃ digits, (numberBase text).2 = sign ++ digits ∧ Denotes (numberBase text).1 digits n := by
  constructor
  · rintro ⟨base, mark, digits, hmark, rfl, hdenotes⟩
    rw [numberBase_of_spells hsign hmark hdenotes]
    exact ⟨digits, rfl, hdenotes⟩
  · rintro ⟨digits, hrest, hdenotes⟩
    obtain ⟨mark, hmark, htext⟩ := exists_mark text
    exact ⟨_, mark, digits, hmark, by rw [← hrest, ← htext], hdenotes⟩

/-! ## Readers -/

/-- The digits behind the mark are read with or without a plus sign, as a number of 32 bits. -/
theorem unsigned?_numberBase :
    unsigned? (numberBase text).1 0x100000000 (numberBase text).2 = some n ↔
      ReadsAs text n ∧ n < 2 ^ 32 := by
  obtain ⟨mark, hmark, -⟩ := exists_mark text
  rw [unsigned?_eq_some_iff (base_le_of_mem hmark), ReadsAs, spellsNumber_iff (.inl rfl),
    spellsNumber_iff (.inr rfl)]
  simp

/-- A number is read unless it is larger than allowed. -/
theorem readNumber_of_fits (hreads : ReadsAs text n) (hfits : n < 2 ^ 32) :
    readNumber argument maximum text =
      if maximum < n then .error (.invalid argument (.tooLarge maximum)) else .ok n := by
  have hfound := unsigned?_numberBase.mpr ⟨hreads, hfits⟩
  rw [readNumber]
  dsimp only
  rw [hfound]

/-- A text that is no number of 32 bits is malformed. -/
theorem readNumber_of_none (h : ∀ n, ReadsAs text n → 2 ^ 32 ≤ n) :
    readNumber argument maximum text =
      .error (.invalid argument (.malformed (String.ofList text))) := by
  have hfound : unsigned? (numberBase text).1 0x100000000 (numberBase text).2 = none := by
    rw [Option.eq_none_iff_forall_ne_some]
    intro n hn
    obtain ⟨hreads, hfits⟩ := unsigned?_numberBase.mp hn
    have hlarge := h n hreads
    omega
  rw [readNumber]
  dsimp only
  rw [hfound]

/-! ## Verdicts -/

/-- There are no other ways. -/
theorem readNumber_cases (argument : String) (maximum : Nat) (text : List Char) :
    (∃ n, ReadsAs text n ∧ n < 2 ^ 32 ∧ readNumber argument maximum text =
        if maximum < n then .error (.invalid argument (.tooLarge maximum)) else .ok n) ∨
      (∀ n, ReadsAs text n → 2 ^ 32 ≤ n) ∧ readNumber argument maximum text =
        .error (.invalid argument (.malformed (String.ofList text))) := by
  by_cases hfound : ∃ n, ReadsAs text n ∧ n < 2 ^ 32
  · obtain ⟨n, hreads, hfits⟩ := hfound
    exact .inl ⟨n, hreads, hfits, readNumber_of_fits hreads hfits⟩
  · have hnone : ∀ n, ReadsAs text n → 2 ^ 32 ≤ n := fun n hreads =>
      Nat.not_lt.mp fun hfits => hfound ⟨n, hreads, hfits⟩
    exact .inr ⟨hnone, readNumber_of_none hnone⟩

/-- A number is taken if it fits in 32 bits and is not above the maximum. -/
theorem readNumber_eq_ok_iff :
    readNumber argument maximum text = .ok n ↔ ReadsAs text n ∧ n < 2 ^ 32 ∧ n ≤ maximum := by
  constructor
  · intro h
    obtain ⟨value, hreads, hfits, hread⟩ | ⟨-, hread⟩ := readNumber_cases argument maximum text
    · rw [hread] at h
      split at h
      · cases h
      · rename_i hmaximum
        cases h
        exact ⟨hreads, hfits, Nat.not_lt.mp hmaximum⟩
    · rw [hread] at h
      cases h
  · rintro ⟨hreads, hfits, hmaximum⟩
    rw [readNumber_of_fits hreads hfits, if_neg (Nat.not_lt.mpr hmaximum)]

/-- A number above the maximum is told as such as long as it fits in 32 bits. -/
theorem readNumber_tooLarge_iff :
    readNumber argument maximum text = .error (.invalid argument (.tooLarge maximum)) ↔
      ∃ n, ReadsAs text n ∧ n < 2 ^ 32 ∧ maximum < n := by
  constructor
  · intro h
    obtain ⟨value, hreads, hfits, hread⟩ | ⟨-, hread⟩ := readNumber_cases argument maximum text
    · rw [hread] at h
      split at h
      · rename_i hmaximum
        exact ⟨value, hreads, hfits, hmaximum⟩
      · cases h
    · rw [hread] at h
      cases h
  · rintro ⟨value, hreads, hfits, hmaximum⟩
    rw [readNumber_of_fits hreads hfits, if_pos hmaximum]

/-- Everything else is told as malformed, also numbers of more than 32 bits. -/
theorem readNumber_malformed_iff :
    readNumber argument maximum text =
        .error (.invalid argument (.malformed (String.ofList text))) ↔
      ∀ n, ReadsAs text n → 2 ^ 32 ≤ n := by
  constructor
  · intro h n hreads
    refine Nat.not_lt.mp fun hfits => ?_
    rw [readNumber_of_fits hreads hfits] at h
    split at h <;> cases h
  · exact readNumber_of_none

/-- Without a plus sign the reader follows the grammar. -/
theorem readsAs_iff_of_plus (hplus : '+' ∉ text) : ReadsAs text n ↔ SpellsNumber [] text n := by
  refine ⟨fun h => h.resolve_right ?_, .inl⟩
  rintro ⟨base, mark, digits, -, rfl, -⟩
  simp at hplus

end Command

open Command in
/-- A text is read as the number of its digits, with or without a plus sign in front of them, if
the number has 32 bits and is not above the maximum. If it has 32 bits and is above the maximum, it
is too large, and every other text is malformed. So without a plus sign the reader accepts exactly
what is spelt as a number up to the maximum, and of larger numbers those of 32 bits are told to be
too large. -/
theorem number_of_argument (argument : String) (maximum : Nat) (text : List Char) :
    let verdict := readNumber argument maximum text
    let tooLarge := .error (.invalid argument (.tooLarge maximum))
    let malformed := .error (.invalid argument (.malformed (String.ofList text)))
    (∀ n, verdict = .ok n ↔ ReadsAs text n ∧ n < 2 ^ 32 ∧ n ≤ maximum) ∧
    (verdict = tooLarge ↔ ∃ n, ReadsAs text n ∧ n < 2 ^ 32 ∧ maximum < n) ∧
    (verdict = malformed ↔ ∀ n, ReadsAs text n → 2 ^ 32 ≤ n) ∧
    ('+' ∉ text → maximum < 2 ^ 32 →
      (∀ n, verdict = .ok n ↔ SpellsNumber [] text n ∧ n ≤ maximum) ∧
      (verdict = tooLarge ↔ ∃ n, SpellsNumber [] text n ∧ n < 2 ^ 32 ∧ maximum < n) ∧
      (verdict = malformed ↔ ∀ n, SpellsNumber [] text n → 2 ^ 32 ≤ n)) := by
  intro verdict tooLarge malformed
  refine ⟨fun n => readNumber_eq_ok_iff, readNumber_tooLarge_iff, readNumber_malformed_iff, ?_⟩
  intro hplus hmaximum
  refine ⟨fun n => ?_, ?_, ?_⟩
  · rw [readNumber_eq_ok_iff, readsAs_iff_of_plus hplus]
    refine and_congr_right fun _ => and_iff_right_of_imp fun hle => ?_
    exact Nat.lt_of_le_of_lt hle hmaximum
  · rw [readNumber_tooLarge_iff]
    simp only [readsAs_iff_of_plus hplus]
  · rw [readNumber_malformed_iff]
    simp only [readsAs_iff_of_plus hplus]

open Command in
/-- A hexadecimal number in mixed case, with zeros in front, as the value of a byte register. -/
theorem number_of_argument_hexadecimal :
    let text := "0X001f".toList
    '+' ∉ text ∧ 0xFF < 2 ^ 32 ∧ SpellsNumber [] text 0x1F ∧
      readNumber "value" 0xFF text = .ok 0x1F := by
  intro text
  have hplus : '+' ∉ text := by decide
  have hspells : SpellsNumber [] text 0x1F :=
    ⟨16, ['0', 'X'], "001f".toList, by simp [baseMarks], by decide,
      [0, 0, 1, 15], by decide, by decide, by decide, rfl⟩
  obtain ⟨-, -, -, hgrammar⟩ := number_of_argument "value" 0xFF text
  obtain ⟨hread, -⟩ := hgrammar hplus (by decide)
  exact ⟨hplus, by decide, hspells, (hread 0x1F).mpr ⟨hspells, by decide⟩⟩

open Command in
/-- What is spelt as no number is read as one if it has a plus sign, and a number too large for any
count is told to be malformed. -/
theorem number_of_argument_signed :
    (∀ n, ¬ SpellsNumber [] "$+10".toList n) ∧
    readNumber "value" 0xFF "$+10".toList = .ok 0x10 ∧
    (∀ n, ¬ SpellsNumber [] "+5".toList n) ∧
    readNumber "value" 0xFF "+5".toList = .ok 5 ∧
    SpellsNumber [] "4294967296".toList 0x100000000 ∧ 0xFFFF < 0x100000000 ∧
    readNumber "address" 0xFFFF "4294967296".toList =
      .error (.invalid "address" (.malformed "4294967296")) := by
  refine ⟨fun n h => h.plus_not_mem (by decide), by decide,
    fun n h => h.plus_not_mem (by decide), by decide, ?_, by decide, by decide +kernel⟩
  exact ⟨10, [], "4294967296".toList, by simp [baseMarks], rfl,
    [4, 2, 9, 4, 9, 6, 7, 2, 9, 6], by decide, by decide, by decide, rfl⟩

end Teach6809
