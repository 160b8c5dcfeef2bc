import Teach6809.Text.Blank

/-!
# Texts in bytes

A text that is written in UTF-8 is read back as it was, and in UTF-8 the byte of a line feed stands
for nothing but a line feed.
-/

namespace Teach6809

/-! ## Bytes -/

namespace Bytes

theorem toList_loop (bytes : ByteArray) (i : Nat) (before : List UInt8) :
    ByteArray.toList.loop bytes i before = before.reverse ++ bytes.data.toList.drop i := by
  fun_induction ByteArray.toList.loop bytes i before with
  | case1 i before h ih =>
    have hi : i < bytes.data.toList.length := by simpa using h
    rw [ih, List.drop_eq_getElem_cons hi]
    simp [ByteArray.get!, h]
  | case2 i before h =>
    rw [List.drop_eq_nil_of_le (by simpa using Nat.le_of_not_lt h), List.append_nil]

theorem toList_toByteArray (bytes : List UInt8) : bytes.toByteArray.toList = bytes := by
  rw [ByteArray.toList, toList_loop, List.toList_data_toByteArray]
  rfl

theorem mk_toArray (bytes : List UInt8) : ByteArray.mk bytes.toArray = bytes.toByteArray :=
  ByteArray.ext List.data_toByteArray.symm

end Bytes

namespace Text

/-- A text in UTF-8. -/
def encode (text : List Char) : List UInt8 := text.flatMap String.utf8EncodeChar

theorem toList_toUTF8 (text : String) : text.toUTF8.toList = encode text.toList := by
  conv => lhs; rw [← String.ofList_toList (s := text)]
  rw [String.toUTF8_eq_toByteArray, String.toByteArray_ofList]
  exact Bytes.toList_toByteArray _

/-- What was written in UTF-8 is read as it was. -/
theorem fromUTF8?_toUTF8 (text : String) : String.fromUTF8? text.toUTF8 = some text := by
  rw [String.toUTF8_eq_toByteArray, String.fromUTF8?, dif_pos text.isValidUTF8]
  rfl

theorem fromUTF8?_encode (text : List Char) :
    String.fromUTF8? (ByteArray.mk (encode text).toArray) = some (String.ofList text) := by
  have hbytes : ByteArray.mk (encode text).toArray = (String.ofList text).toUTF8 := by
    rw [Bytes.mk_toArray, String.toUTF8_eq_toByteArray, String.toByteArray_ofList]
    rfl
  rw [hbytes, fromUTF8?_toUTF8]

/-- The byte of a line feed stands for nothing but a line feed. -/
theorem lineFeed_not_mem_utf8EncodeChar {c : Char} (hc : c ≠ '\n') :
    (0x0A : UInt8) ∉ String.utf8EncodeChar c := by
  have hbyte : ∀ n, n % 256 ≠ 10 → (0x0A : UInt8) ≠ UInt8.ofNat n := by
    intro n hn h
    exact hn (by simpa using (congrArg UInt8.toNat h).symm)
  have hcode : c.val.toNat ≠ 10 := fun h => hc (Char.toNat_inj.mp h)
  -- A character of one byte is that byte; of several bytes, all are from 128 on.
  fun_cases String.utf8EncodeChar c with
  | case1 v hone =>
    rw [List.mem_singleton]
    exact hbyte _ (by omega)
  | case2 v hone htwo =>
    simp only [List.mem_cons, List.not_mem_nil, or_false, not_or]
    exact ⟨hbyte _ (by omega), hbyte _ (by omega)⟩
  | case3 v hone htwo hthree =>
    simp only [List.mem_cons, List.not_mem_nil, or_false, not_or]
    exact ⟨hbyte _ (by omega), hbyte _ (by omega), hbyte _ (by omega)⟩
  | case4 v hone htwo hthree =>
    simp only [List.mem_cons, List.not_mem_nil, or_false, not_or]
    exact ⟨hbyte _ (by omega), hbyte _ (by omega), hbyte _ (by omega), hbyte _ (by omega)⟩

/-! ## Places counted in bytes -/

/-- A text cut in two at a byte; none if the byte is beyond the text or inside a character. -/
def cutAtByte? : List Char → Nat → Option (List Char × List Char)
  | text, 0 => some ([], text)
  | [], _ + 1 => none
  | c :: rest, n + 1 =>
    if c.utf8Size ≤ n + 1 then
      (cutAtByte? rest (n + 1 - c.utf8Size)).map fun parts => (c :: parts.1, parts.2)
    else none

/-- A text with a character put in at a byte. -/
def insertAt? (text : List Char) (n : Nat) (c : Char) : Option (List Char) :=
  (cutAtByte? text n).map fun parts => parts.1 ++ c :: parts.2

/-- A text without the character that starts at a byte. -/
def removeAt? (text : List Char) (n : Nat) : Option (List Char) :=
  match cutAtByte? text n with
  | some (before, _ :: after) => some (before ++ after)
  | _ => none

/-- A character starts at the byte, or the text ends there. -/
def IsBoundary (text : List Char) (n : Nat) : Prop :=
  ∃ before after, text = before ++ after ∧ utf8Length before = n

variable {text before after : List Char} {n : Nat}

theorem utf8Length_eq_zero : utf8Length text = 0 ↔ text = [] := by
  cases text with
  | nil => simp
  | cons c rest =>
    have hsize := c.utf8Size_pos
    simp only [utf8Length_cons, reduceCtorEq, iff_false]
    omega

/-- Cutting finds the two parts of which the first has the given length. -/
theorem cutAtByte?_eq_some_iff :
    cutAtByte? text n = some (before, after) ↔ text = before ++ after ∧ utf8Length before = n := by
  fun_induction cutAtByte? text n generalizing before with
  | case1 text =>
    rw [utf8Length_eq_zero, Option.some.injEq, Prod.mk.injEq]
    constructor
    · rintro ⟨rfl, rfl⟩
      exact ⟨rfl, rfl⟩
    · rintro ⟨rfl, rfl⟩
      exact ⟨rfl, rfl⟩
  | case2 n =>
    -- The text is over before the place.
    simp only [reduceCtorEq, false_iff]
    rintro ⟨hparts, hlength⟩
    rw [(List.append_eq_nil_iff.mp hparts.symm).1] at hlength
    cases hlength
  | case3 c rest n hsize ih =>
    -- The first character belongs to what is cut off.
    rw [Option.map_eq_some_iff]
    constructor
    · rintro ⟨⟨front, behind⟩, hcut, hparts⟩
      cases hparts
      obtain ⟨rfl, hlength⟩ := ih.mp hcut
      exact ⟨rfl, by rw [utf8Length_cons, hlength]; omega⟩
    · rintro ⟨hparts, hlength⟩
      cases before with
      | nil => cases hlength
      | cons d front =>
        cases hparts
        rw [utf8Length_cons] at hlength
        exact ⟨(front, after), ih.mpr ⟨rfl, by omega⟩, rfl⟩
  | case4 c rest n hsize =>
    -- The place is within the first character, so no cut is there.
    simp only [reduceCtorEq, false_iff]
    rintro ⟨hparts, hlength⟩
    cases before with
    | nil => cases hlength
    | cons d front =>
      cases hparts
      rw [utf8Length_cons] at hlength
      omega

section Ascii

/-- In ASCII every character takes one byte. -/
theorem utf8Length_of_ascii (h : ∀ c ∈ text, c.toNat ≤ 127) : utf8Length text = text.length := by
  induction text with
  | nil => rfl
  | cons c rest ih =>
    have hsize : c.utf8Size = 1 :=
      Char.utf8Size_eq_one_iff.mpr (UInt32.le_iff_toNat_le.mpr (h c List.mem_cons_self))
    have hrest := ih fun d hd => h d (List.mem_cons_of_mem c hd)
    rw [utf8Length_cons, hsize, hrest, List.length_cons, Nat.add_comm]

variable (hascii : ∀ c ∈ text, c.toNat ≤ 127)
include hascii

theorem cutAtByte?_of_ascii (hn : n ≤ text.length) :
    cutAtByte? text n = some (text.take n, text.drop n) := by
  refine cutAtByte?_eq_some_iff.mpr ⟨(List.take_append_drop n text).symm, ?_⟩
  rw [utf8Length_of_ascii fun c hc => hascii c (List.mem_of_mem_take hc), List.length_take_of_le hn]

/-- In ASCII there is no byte inside a character. -/
theorem isBoundary_of_ascii (hn : n ≤ utf8Length text) : IsBoundary text n := by
  rw [utf8Length_of_ascii hascii] at hn
  exact ⟨text.take n, text.drop n, cutAtByte?_eq_some_iff.mp (cutAtByte?_of_ascii hascii hn)⟩

theorem insertAt?_of_ascii (hn : n ≤ text.length) (c : Char) :
    insertAt? text n c = some (text.take n ++ c :: text.drop n) := by
  rw [insertAt?, cutAtByte?_of_ascii hascii hn]
  rfl

theorem removeAt?_of_ascii (hn : n < text.length) :
    removeAt? text n = some (text.eraseIdx n) := by
  rw [removeAt?, cutAtByte?_of_ascii hascii (Nat.le_of_lt hn), List.drop_eq_getElem_cons hn,
    List.eraseIdx_eq_take_drop_succ]

end Ascii

end Text

end Teach6809
