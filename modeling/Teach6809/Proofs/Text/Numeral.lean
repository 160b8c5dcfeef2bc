import Mathlib.Data.Nat.Digits.Defs
import Teach6809.Proofs.Text.Blank
import Teach6809.Text.Numeral

/-!
# Numbers written in digits

`Denotes` says what a row of digits means, without reading it: the digits are numbers below the
base, each is written as `hexDigit` writes it or as the lower case of that, and their places count
as in `Nat.ofDigits`. Main statement: `natural?_eq_some_iff`, a row is read as the number it denotes
and nothing else is read.
-/

namespace Teach6809
namespace Text

/-- A text is one or more digits of a base, the highest first, and they denote a number. There may
be zeros in front. -/
def Denotes (base : Nat) (text : List Char) (n : Nat) : Prop :=
  ∃ digits : List Nat, digits ≠ [] ∧ (∀ d ∈ digits, d < base) ∧
    upper text = digits.map hexDigit ∧ n = Nat.ofDigits base digits.reverse

variable {base n d : Nat} {text : List Char} {c : Char}

/-! ## Single digits -/

/-- The value of a digit by its code point. -/
theorem digitValue_eq (c : Char) :
    digitValue c =
      if 48 ≤ c.toNat ∧ c.toNat ≤ 57 then c.toNat - 48
      else if 97 ≤ c.toNat ∧ c.toNat ≤ 102 then c.toNat - 87
      else if 65 ≤ c.toNat ∧ c.toNat ≤ 70 then c.toNat - 55
      else 16 := by
  have hval : c.val.toNat = c.toNat := rfl
  simp only [digitValue, Char.isDigit, Char.le_def, UInt32.le_iff_toNat_le, Bool.and_eq_true,
    decide_eq_true_eq, hval, show '0'.val.toNat = 48 from rfl, show '9'.val.toNat = 57 from rfl,
    show 'a'.val.toNat = 97 from rfl, show 'f'.val.toNat = 102 from rfl,
    show 'A'.val.toNat = 65 from rfl, show 'F'.val.toNat = 70 from rfl,
    show '0'.toNat = 48 from rfl, show 'a'.toNat = 97 from rfl, show 'A'.toNat = 65 from rfl]
  split_ifs <;> omega

/-- A letter has the same value in either case. -/
theorem digitValue_toUpper (c : Char) : digitValue c.toUpper = digitValue c := by
  rcases toUpper_eq_or c with hsame | ⟨hlow, hhigh, hupper⟩
  · rw [hsame]
  · rw [digitValue_eq, digitValue_eq]
    split_ifs <;> omega

theorem digitValue_hexDigit : ∀ d < 16, digitValue (hexDigit d) = d := by decide

/-- A digit is in upper case what is written for its value. -/
theorem toUpper_of_digitValue (h : digitValue c < 16) : c.toUpper = hexDigit (digitValue c) := by
  have hwritten : ∀ d < 16, (d < 10 → (Char.ofNat (d + 48)).toUpper = hexDigit d) ∧
      (10 ≤ d → (Char.ofNat (d + 87)).toUpper = hexDigit d ∧
        (Char.ofNat (d + 55)).toUpper = hexDigit d) := by decide
  obtain ⟨hdecimal, hletter⟩ := hwritten _ h
  rw [digitValue_eq] at h hdecimal hletter ⊢
  -- In each of the three ranges the value tells which character it is.
  split_ifs at h hdecimal hletter ⊢
  · rw [← hdecimal (by omega), Nat.sub_add_cancel (by omega), Char.ofNat_toNat]
  · rw [← (hletter (by omega)).1, Nat.sub_add_cancel (by omega), Char.ofNat_toNat]
  · rw [← (hletter (by omega)).2, Nat.sub_add_cancel (by omega), Char.ofNat_toNat]
  · omega

theorem toUpper_eq_hexDigit_iff (hd : d < 16) : c.toUpper = hexDigit d ↔ digitValue c = d := by
  constructor
  · intro h
    rw [← digitValue_toUpper, h, digitValue_hexDigit d hd]
  · intro h
    subst h
    exact toUpper_of_digitValue hd

/-! ## Rows of digits -/

theorem upper_eq_map_hexDigit_iff {digits : List Nat} (hdigits : ∀ d ∈ digits, d < 16) :
    upper text = digits.map hexDigit ↔ text.map digitValue = digits := by
  induction text generalizing digits with
  | nil => cases digits <;> simp [upper]
  | cons c rest ih =>
    cases digits with
    | nil => simp [upper]
    | cons d digits =>
      have hrest := ih fun e he => hdigits e (List.mem_cons_of_mem d he)
      rw [upper, List.map_cons, List.map_cons, List.map_cons, List.cons.injEq, List.cons.injEq,
        toUpper_eq_hexDigit_iff (hdigits d List.mem_cons_self), ← upper, hrest]

/-- The value of a row of digits counts their places. -/
theorem valueOf_eq_ofDigits (base : Nat) (text : List Char) :
    valueOf base text = Nat.ofDigits base (text.map digitValue).reverse := by
  rw [Nat.ofDigits_eq_foldr, List.foldr_reverse, List.foldl_map, valueOf]
  congr 1
  funext value c
  rw [Nat.cast_id, Nat.mul_comm, Nat.add_comm]

/-- The number that a row of digits denotes is read, and no other text is a number. -/
theorem natural?_eq_some_iff (hbase : base ≤ 16) :
    natural? base text = some n ↔ Denotes base text n := by
  have hall : text.all (isDigitOf base) = true ↔ ∀ d ∈ text.map digitValue, d < base := by
    simp [isDigitOf]
  rw [natural?, valueOf_eq_ofDigits]
  constructor
  · intro h
    split at h
    · rename_i hdigits
      rw [Bool.and_eq_true, hall, Bool.not_eq_true', List.isEmpty_eq_false_iff] at hdigits
      obtain ⟨hne, hsmall⟩ := hdigits
      cases h
      refine ⟨text.map digitValue, by simpa using hne, hsmall, ?_, rfl⟩
      exact (upper_eq_map_hexDigit_iff fun d hd => Nat.lt_of_lt_of_le (hsmall d hd) hbase).mpr rfl
    · cases h
  · intro h
    obtain ⟨digits, hne, hsmall, hwritten, rfl⟩ := h
    have hvalues := (upper_eq_map_hexDigit_iff
      fun d hd => Nat.lt_of_lt_of_le (hsmall d hd) hbase).mp hwritten
    subst hvalues
    rw [if_pos]
    rw [Bool.and_eq_true, hall, Bool.not_eq_true', List.isEmpty_eq_false_iff]
    exact ⟨by simpa using hne, hsmall⟩

namespace Denotes

/-- There is a digit at least. -/
theorem ne_nil (h : Denotes base text n) : text ≠ [] := by
  obtain ⟨digits, hne, -, hwritten, -⟩ := h
  rintro rfl
  exact hne (List.map_eq_nil_iff.mp hwritten.symm)

/-- There is nothing but digits. -/
theorem digitValue_lt (h : Denotes base text n) (hbase : base ≤ 16) (hc : c ∈ text) :
    digitValue c < base := by
  obtain ⟨digits, -, hsmall, hwritten, -⟩ := h
  have hvalues := (upper_eq_map_hexDigit_iff
    fun d hd => Nat.lt_of_lt_of_le (hsmall d hd) hbase).mp hwritten
  exact hsmall _ (hvalues ▸ List.mem_map_of_mem hc)

/-- A character that is no digit is not among them. -/
theorem not_mem (h : Denotes base text n) (hbase : base ≤ 16) (hc : digitValue c = 16) :
    c ∉ text := by
  intro hmem
  have hlt := h.digitValue_lt hbase hmem
  omega

/-- Digits are ASCII. -/
theorem toNat_le (h : Denotes base text n) (hbase : base ≤ 16) : ∀ c ∈ text, c.toNat ≤ 127 := by
  intro c hc
  have hlt := h.digitValue_lt hbase hc
  rw [digitValue_eq] at hlt
  split_ifs at hlt <;> omega

/-- A text of so many digits denotes a number with so many places. -/
theorem lt_pow (h : Denotes base text n) (hbase : 1 < base) : n < base ^ text.length := by
  obtain ⟨digits, -, hsmall, hwritten, rfl⟩ := h
  have hlength : text.length = digits.reverse.length := by
    simpa [upper] using congrArg List.length hwritten
  rw [hlength]
  exact Nat.ofDigits_lt_base_pow_length hbase fun d hd => hsmall d (List.mem_reverse.mp hd)

end Denotes

/-- Of hexadecimal digits a limited number is read. -/
theorem hexUpTo?_eq_some_iff {most : Nat} :
    hexUpTo? most text = some n ↔ Denotes 16 text n ∧ text.length ≤ most := by
  rw [hexUpTo?, ← natural?_eq_some_iff (Nat.le_refl 16)]
  split
  · rename_i hlength
    exact ⟨fun h => ⟨h, hlength⟩, And.left⟩
  · rename_i hlength
    exact iff_of_false (by simp) fun h => hlength h.2

/-- A text is not read if it is no row of digits or a longer one. -/
theorem hexUpTo?_eq_none_iff {most : Nat} :
    hexUpTo? most text = none ↔ ∀ n, Denotes 16 text n → most < text.length := by
  rw [Option.eq_none_iff_forall_ne_some]
  simp only [ne_eq, hexUpTo?_eq_some_iff, not_and, Nat.not_le]

/-- A number below a bound is a row of digits, with or without a plus sign. -/
theorem unsigned?_eq_some_iff {bound : Nat} (hbase : base ≤ 16) :
    unsigned? base bound text = some n ↔
      (Denotes base text n ∨ ∃ digits, text = '+' :: digits ∧ Denotes base digits n) ∧
        n < bound := by
  unfold unsigned?
  rw [Option.filter_eq_some_iff, decide_eq_true_eq, natural?_eq_some_iff hbase]
  refine and_congr_left fun _ => ?_
  split
  · rename_i digits
    constructor
    · intro h
      exact .inr ⟨digits, rfl, h⟩
    · rintro (h | ⟨row, hsame, h⟩)
      · -- No digit is a plus, so a row of digits does not start with one.
        exact absurd List.mem_cons_self (h.not_mem hbase (show digitValue '+' = 16 by decide))
      · cases hsame
        exact h
  · rename_i hplus
    constructor
    · exact .inl
    · rintro (h | ⟨digits, htext, -⟩)
      · exact h
      · exact absurd htext (hplus digits)

/-- A whole number is a row of digits, with or without a minus sign. -/
theorem integer?_eq_some_iff {value : Int} :
    integer? text = some value ↔
      (∃ digits n, text = '-' :: digits ∧ Denotes 10 digits n ∧ value = -(n : Int)) ∨
        ∃ n : Nat, Denotes 10 text n ∧ value = n := by
  have hdigits (row : List Char) (n : Nat) : natural? 10 row = some n ↔ Denotes 10 row n :=
    natural?_eq_some_iff (by omega)
  unfold integer?
  split
  · rename_i digits
    simp only [Option.map_eq_some_iff, Option.bind_eq_bind, Option.bind_eq_some_iff,
      Option.pure_def, Option.some.injEq, hdigits]
    constructor
    · rintro ⟨_, ⟨n, hn, rfl⟩, rfl⟩
      exact .inl ⟨digits, n, rfl, hn, rfl⟩
    · rintro (⟨_, n, hsame, hn, rfl⟩ | ⟨n, hn, -⟩)
      · cases hsame
        exact ⟨n, ⟨n, hn, rfl⟩, rfl⟩
      · -- A minus is not among the digits.
        exact absurd List.mem_cons_self (hn.not_mem (by omega) (by decide))
  · rename_i hminus
    simp only [Option.map_eq_some_iff, Option.bind_eq_bind, Option.bind_eq_some_iff,
      Option.pure_def, Option.some.injEq, hdigits]
    constructor
    · rintro ⟨_, ⟨n, hn, rfl⟩, rfl⟩
      exact .inr ⟨n, hn, rfl⟩
    · rintro (⟨digits, n, htext, -, -⟩ | ⟨n, hn, rfl⟩)
      · exact absurd htext (hminus digits)
      · exact ⟨n, ⟨n, hn, rfl⟩, rfl⟩

/-! ## Columns of digits -/

theorem length_hexChars (width n : Nat) : (hexChars width n).length = width := by
  induction width generalizing n with
  | zero => rfl
  | succ width ih => rw [hexChars, List.length_append, ih, List.length_singleton]

theorem mem_hexChars {width : Nat} (hc : c ∈ hexChars width n) : ∃ d < 16, c = hexDigit d := by
  induction width generalizing n with
  | zero => exact absurd hc List.not_mem_nil
  | succ width ih =>
    rw [hexChars, List.mem_append, List.mem_singleton] at hc
    rcases hc with hc | hc
    · exact ih hc
    · exact ⟨n % 16, Nat.mod_lt _ (by decide), hc⟩

/-- A character that is no digit is not written. -/
theorem not_mem_hexChars (hc : digitValue c = 16) (width n : Nat) : c ∉ hexChars width n := by
  intro hmem
  obtain ⟨d, hd, rfl⟩ := mem_hexChars hmem
  rw [digitValue_hexDigit d hd] at hc
  omega

theorem valueOf_hexChars (width n : Nat) : valueOf 16 (hexChars width n) = n % 16 ^ width := by
  induction width generalizing n with
  | zero => rw [Nat.pow_zero, Nat.mod_one, hexChars, valueOf, List.foldl_nil]
  | succ width ih =>
    have hlast : n % 16 < 16 := Nat.mod_lt _ (by decide)
    have hfront := ih (n / 16)
    rw [valueOf] at hfront
    rw [hexChars, valueOf, List.foldl_append, hfront, List.foldl_cons, List.foldl_nil,
      digitValue_hexDigit _ hlast, Nat.pow_succ', Nat.mod_mul, Nat.mul_comm, Nat.add_comm]

/-- A number that fits into a column is read from it. -/
theorem natural?_hexChars {width : Nat} (hwidth : 0 < width) (hn : n < 16 ^ width) :
    natural? 16 (hexChars width n) = some n := by
  have hdigits : (hexChars width n).all (isDigitOf 16) = true := by
    rw [List.all_eq_true]
    intro c hc
    obtain ⟨d, hd, rfl⟩ := mem_hexChars hc
    rw [isDigitOf, digitValue_hexDigit d hd]
    exact decide_eq_true hd
  have hne : (hexChars width n).isEmpty = false := by
    rw [List.isEmpty_eq_false_iff, ← List.length_pos_iff, length_hexChars]
    exact hwidth
  rw [natural?, hne, hdigits, valueOf_hexChars, Nat.mod_eq_of_lt hn]
  rfl

end Text
end Teach6809
