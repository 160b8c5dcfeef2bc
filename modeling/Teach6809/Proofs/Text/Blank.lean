import Mathlib.Data.List.DropRight
import Teach6809.Text.Split

/-!
# White space, marks and upper case

Upper case does not touch white space or the marks of a source line, so a line can be taken apart
before or after it is read as upper case. Joining lines with line feeds and splitting them again
gives the same lines.
-/

namespace Teach6809
namespace Text

variable {text before after : List Char} {c : Char}

/-! ## White space -/

theorem allBlank_iff : allBlank text = true ↔ ∀ c ∈ text, isBlank c = true := List.all_eq_true

/-- Whether a character is not white space. -/
def isVisible (c : Char) : Bool := !isBlank c

theorem isVisible_iff : isVisible c = true ↔ isBlank c = false := by
  rw [isVisible, Bool.not_eq_true']

theorem allBlank_append :
    allBlank (before ++ after) = true ↔ allBlank before = true ∧ allBlank after = true := by
  rw [allBlank, List.all_append, Bool.and_eq_true]
  rfl

/-- The visible characters of ASCII are not white space. -/
theorem isBlank_of_visible (hlow : 33 ≤ c.toNat) (hhigh : c.toNat ≤ 126) : isBlank c = false := by
  simp only [isBlank, blankRanges, List.any_cons, List.any_nil, Bool.or_false,
    Bool.or_eq_false_iff, Bool.and_eq_false_iff, decide_eq_false_iff_not]
  omega

theorem dropWhile_isBlank_eq_nil : text.dropWhile isBlank = [] ↔ allBlank text = true :=
  List.dropWhile_eq_nil_iff.trans allBlank_iff.symm

/-- The first character that is not dropped fails the test. -/
theorem dropWhile_eq_cons {p : Char → Bool} {rest : List Char}
    (h : text.dropWhile p = c :: rest) : p c = false := by
  have hhead := List.head_dropWhile_not p (l := text) (by rw [h]; exact List.cons_ne_nil _ _)
  simpa only [h, List.head_cons] using hhead

theorem dropWhile_visible {word rest : List Char} (hne : word ≠ [])
    (hword : ∀ c ∈ word, isBlank c = false) : (word ++ rest).dropWhile isBlank = word ++ rest := by
  obtain ⟨c, tail, rfl⟩ := List.exists_cons_of_ne_nil hne
  exact List.dropWhile_cons_of_neg (by rw [hword c List.mem_cons_self]; decide)

/-- A word ends where the text does, or at white space. -/
theorem takeWhile_word {word rest : List Char} (hword : ∀ c ∈ word, isBlank c = false)
    (hrest : ∀ c ∈ rest.head?, isBlank c = true) :
    (word ++ rest).takeWhile isVisible = word := by
  rw [List.takeWhile_append_of_pos fun c hc => isVisible_iff.mpr (hword c hc)]
  cases rest with
  | nil => exact List.append_nil word
  | cons c tail =>
    rw [List.takeWhile_cons_of_neg (by rw [isVisible, hrest c rfl]; decide), List.append_nil]

theorem dropWhile_word {word rest : List Char} (hword : ∀ c ∈ word, isBlank c = false)
    (hrest : ∀ c ∈ rest.head?, isBlank c = true) :
    (word ++ rest).dropWhile isVisible = rest := by
  rw [List.dropWhile_append_of_pos fun c hc => isVisible_iff.mpr (hword c hc)]
  cases rest with
  | nil => rfl
  | cons c tail => exact List.dropWhile_cons_of_neg (by rw [isVisible, hrest c rfl]; decide)

/-! ## Trimming -/

/-- What is taken off the end of a text satisfies the test. -/
theorem exists_dropEndWhile (p : Char → Bool) (text : List Char) :
    ∃ after, (∀ c ∈ after, p c = true) ∧ text = dropEndWhile p text ++ after := by
  refine ⟨(text.reverse.takeWhile p).reverse, fun c hc => ?_, ?_⟩
  · exact List.mem_takeWhile_imp (List.mem_reverse.mp hc)
  · rw [dropEndWhile, ← List.reverse_append, List.takeWhile_append_dropWhile, List.reverse_reverse]

/-- Trimming takes white space off both ends. -/
theorem exists_trim (text : List Char) :
    ∃ before after, allBlank before = true ∧ allBlank after = true ∧
      text = before ++ trim text ++ after := by
  obtain ⟨after, hafter, hsplit⟩ := exists_dropEndWhile isBlank (text.dropWhile isBlank)
  refine ⟨text.takeWhile isBlank, after, List.all_takeWhile, allBlank_iff.mpr hafter, ?_⟩
  rw [List.append_assoc, trim, trimEnd, ← hsplit, List.takeWhile_append_dropWhile]

/-- Trimming takes off white space only. -/
theorem trim_append {word : List Char} (hbefore : allBlank before = true) (hne : word ≠ [])
    (hword : ∀ c ∈ word, isBlank c = false) (hafter : allBlank after = true) :
    trim (before ++ word ++ after) = word := by
  have hafter : ∀ c ∈ after.reverse, isBlank c = true := by
    intro c hc
    exact allBlank_iff.mp hafter c (List.mem_reverse.mp hc)
  have hback : word.reverse.dropWhile isBlank = word.reverse := by
    rw [← List.append_nil word.reverse]
    exact dropWhile_visible (List.reverse_ne_nil_iff.mpr hne) fun c hc =>
      hword c (List.mem_reverse.mp hc)
  rw [trim, List.append_assoc, List.dropWhile_append_of_pos (allBlank_iff.mp hbefore),
    dropWhile_visible hne hword, trimEnd, dropEndWhile, List.reverse_append,
    List.dropWhile_append_of_pos hafter, hback, List.reverse_reverse]

theorem trim_eq_nil : trim text = [] ↔ allBlank text = true := by
  constructor
  · intro h
    obtain ⟨before, after, hbefore, hafter, hsplit⟩ := exists_trim text
    rw [hsplit, h, List.append_nil]
    exact allBlank_append.mpr ⟨hbefore, hafter⟩
  · intro h
    rw [trim, dropWhile_isBlank_eq_nil.mpr h]
    rfl

/-- A trimmed text does not start with white space. -/
theorem trim_eq_cons {rest : List Char} (h : trim text = c :: rest) : isBlank c = false := by
  obtain ⟨after, -, hsplit⟩ := exists_dropEndWhile isBlank (text.dropWhile isBlank)
  rw [← trimEnd, ← trim, h, List.cons_append] at hsplit
  exact dropWhile_eq_cons hsplit

theorem trim_append_blank (hafter : allBlank after = true) : trim (text ++ after) = trim text := by
  have hback : ∀ c ∈ after.reverse, isBlank c = true := by
    intro c hc
    exact allBlank_iff.mp hafter c (List.mem_reverse.mp hc)
  by_cases hblank : allBlank text = true
  · rw [trim_eq_nil.mpr hblank, trim_eq_nil]
    exact allBlank_append.mpr ⟨hblank, hafter⟩
  · have hstart : (text.dropWhile isBlank).isEmpty = false := by
      rw [Bool.eq_false_iff, Ne, List.isEmpty_iff, dropWhile_isBlank_eq_nil]
      exact hblank
    rw [trim, trim, List.dropWhile_append, hstart, if_neg Bool.false_ne_true, trimEnd, trimEnd,
      dropEndWhile, dropEndWhile, List.reverse_append, List.dropWhile_append_of_pos hback]

theorem trim_trim : trim (trim text) = trim text := by
  obtain ⟨before, after, hbefore, hafter, hsplit⟩ := exists_trim text
  conv => rhs; rw [hsplit, trim_append_blank hafter, trim,
    List.dropWhile_append_of_pos (allBlank_iff.mp hbefore), ← trim]

theorem allBlank_trim : allBlank (trim text) = allBlank text := by
  rw [Bool.eq_iff_iff, ← trim_eq_nil, ← trim_eq_nil, trim_trim]

/-! ## Marks -/

theorem bne_of_not_mem {mark : Char} (h : mark ∉ text) : ∀ c ∈ text, (c != mark) = true := by
  intro c hc
  rw [bne_iff_ne]
  rintro rfl
  exact h hc

theorem takeWhile_bne {mark : Char} (h : mark ∉ before) :
    (before ++ mark :: after).takeWhile (· != mark) = before := by
  rw [List.takeWhile_append_of_pos (bne_of_not_mem h), List.takeWhile_cons_of_neg (by simp),
    List.append_nil]

/-- A text can be cut at the first mark in it, or at its end. -/
theorem takeWhile_bne_of_head {mark : Char} (h : mark ∉ before)
    (hafter : ∀ c ∈ after.head?, c = mark) : (before ++ after).takeWhile (· != mark) = before := by
  cases after with
  | nil =>
    rw [List.append_nil]
    exact List.takeWhile_eq_self_iff.mpr (bne_of_not_mem h)
  | cons c rest =>
    rw [hafter c rfl]
    exact takeWhile_bne h

theorem dropWhile_bne {mark : Char} (h : mark ∉ before) :
    (before ++ mark :: after).dropWhile (· != mark) = mark :: after := by
  rw [List.dropWhile_append_of_pos (bne_of_not_mem h), List.dropWhile_cons_of_neg (by simp)]

/-- A text is cut at the first mark in it. -/
theorem cutAt?_eq_some_iff {mark : Char} :
    cutAt? mark text = some (before, after) ↔ text = before ++ mark :: after ∧ mark ∉ before := by
  constructor
  · intro h
    unfold cutAt? at h
    split at h
    · cases h
    · rename_i c rest hdrop
      cases h
      have hc : c = mark := bne_eq_false_iff_eq.mp (dropWhile_eq_cons (p := (· != mark)) hdrop)
      rw [hc] at hdrop
      refine ⟨?_, fun hmark => ?_⟩
      · rw [← hdrop, List.takeWhile_append_dropWhile]
      · have hne := List.mem_takeWhile_imp hmark
        rw [bne_self_eq_false] at hne
        cases hne
  · rintro ⟨rfl, hmark⟩
    rw [cutAt?, dropWhile_bne hmark, takeWhile_bne hmark]

theorem cutAt?_eq_none_iff {mark : Char} : cutAt? mark text = none ↔ mark ∉ text := by
  constructor
  · intro h hmark
    obtain ⟨before, after, htext, hbefore⟩ := List.eq_append_cons_of_mem hmark
    rw [cutAt?_eq_some_iff.mpr ⟨htext, hbefore⟩] at h
    cases h
  · intro hmark
    have hdrop : text.dropWhile (· != mark) = [] :=
      List.dropWhile_eq_nil_iff.mpr (bne_of_not_mem hmark)
    rw [cutAt?, hdrop]

/-! ## Squeezing -/

theorem squeeze_append : squeeze (before ++ after) = squeeze before ++ squeeze after :=
  List.filter_append _ _

theorem mem_squeeze : c ∈ squeeze text ↔ c ∈ text ∧ isBlank c = false := by
  rw [squeeze, List.mem_filter, Bool.not_eq_true']

theorem squeeze_eq_nil : squeeze text = [] ↔ allBlank text = true := by
  rw [squeeze, List.filter_eq_nil_iff, allBlank_iff]
  simp only [Bool.not_eq_true', Bool.not_eq_false]

/-- A text without white space is not changed by squeezing. -/
theorem squeeze_squeeze : squeeze (squeeze text) = squeeze text := by
  rw [squeeze, List.filter_eq_self]
  intro c hc
  rw [(mem_squeeze.mp hc).2]
  rfl

theorem allBlank_cons (h : isBlank c = true) : allBlank (c :: text) = allBlank text := by
  rw [allBlank, List.all_cons, h, Bool.true_and, ← allBlank]

theorem squeeze_cons (h : isBlank c = true) : squeeze (c :: text) = squeeze text :=
  List.filter_cons_of_neg (by rw [h]; decide)

theorem squeeze_dropWhile : squeeze (text.dropWhile isBlank) = squeeze text := by
  have hgap : allBlank (text.takeWhile isBlank) = true := List.all_takeWhile
  conv => rhs; rw [← List.takeWhile_append_dropWhile (p := isBlank) (l := text)]
  rw [squeeze_append, squeeze_eq_nil.mpr hgap, List.nil_append]

/-! ## Upper case -/

/-- Only the lower-case letters of ASCII have another upper case. -/
theorem toUpper_eq_or (c : Char) :
    c.toUpper = c ∨ 97 ≤ c.toNat ∧ c.toNat ≤ 122 ∧ c.toUpper.toNat + 32 = c.toNat := by
  unfold Char.toUpper
  split
  · rename_i hlower
    right
    obtain ⟨hlow, hhigh⟩ := hlower
    have hlow : 97 ≤ c.val.toNat := hlow
    have hhigh : c.val.toNat ≤ 122 := hhigh
    refine ⟨hlow, hhigh, ?_⟩
    show (c.val + ('A'.val - 'a'.val)).toNat + 32 = c.val.toNat
    rw [UInt32.toNat_add, show ('A'.val - 'a'.val).toNat = 4294967264 from rfl]
    omega
  · exact .inl rfl

theorem toUpper_toUpper (c : Char) : c.toUpper.toUpper = c.toUpper := by
  rcases toUpper_eq_or c.toUpper with hsame | ⟨hlow, hhigh, -⟩
  · exact hsame
  · -- An upper case is below the lower-case letters.
    rcases toUpper_eq_or c with hsame | ⟨-, hhigh, hupper⟩
    · rw [hsame, hsame]
    · omega

theorem isBlank_toUpper (c : Char) : isBlank c.toUpper = isBlank c := by
  rcases toUpper_eq_or c with hsame | ⟨hlow, hhigh, hupper⟩
  · rw [hsame]
  · rw [isBlank_of_visible (c := c) (by omega) (by omega), isBlank_of_visible (by omega) (by omega)]

theorem isVisible_toUpper (c : Char) : isVisible c.toUpper = isVisible c :=
  congrArg not (isBlank_toUpper c)

/-- A character below the letters is its own upper case, and no other character's. -/
theorem toUpper_bne (c : Char) {mark : Char} (hmark : mark.toNat < 65) :
    (c.toUpper != mark) = (c != mark) := by
  rcases toUpper_eq_or c with hsame | ⟨hlow, hhigh, hupper⟩
  · rw [hsame]
  · have hneither : ∀ d : Char, 65 ≤ d.toNat → (d != mark) = true := by
      intro d hd
      rw [bne_iff_ne]
      rintro rfl
      omega
    rw [hneither c (by omega), hneither c.toUpper (by omega)]

/-- A text in upper case. -/
def upper (text : List Char) : List Char := text.map Char.toUpper

@[simp] theorem upper_append : upper (before ++ after) = upper before ++ upper after :=
  List.map_append

theorem upper_reverse : (upper text).reverse = upper text.reverse := List.map_reverse.symm

@[simp] theorem upper_eq_nil : upper text = [] ↔ text = [] := List.map_eq_nil_iff

@[simp] theorem upper_upper : upper (upper text) = upper text := by
  rw [upper, upper, List.map_map]
  exact List.map_congr_left fun c _ => toUpper_toUpper c

@[simp] theorem allBlank_upper : allBlank (upper text) = allBlank text := by
  rw [allBlank, upper, List.all_map]
  exact congrArg (fun p => text.all p) (funext isBlank_toUpper)

theorem isBlank_of_mem_upper (h : ∀ c ∈ text, isBlank c = false) :
    ∀ c ∈ upper text, isBlank c = false := by
  intro c hc
  obtain ⟨d, hd, rfl⟩ := List.mem_map.mp hc
  rw [isBlank_toUpper, h d hd]

/-- A mark is in the upper case of a text exactly if it is in the text. -/
theorem mem_upper {mark : Char} (hmark : mark.toNat < 65) : mark ∈ upper text ↔ mark ∈ text := by
  have hsame : ∀ c : Char, c.toUpper = mark ↔ c = mark := by
    intro c
    have hbne := toUpper_bne c hmark
    rw [Bool.eq_iff_iff, bne_iff_ne, bne_iff_ne] at hbne
    exact not_iff_not.mp hbne
  rw [upper, List.mem_map]
  constructor
  · rintro ⟨c, hc, hmark⟩
    rwa [← (hsame c).mp hmark]
  · intro hmem
    exact ⟨mark, hmem, (hsame mark).mpr rfl⟩

theorem squeeze_upper : squeeze (upper text) = upper (squeeze text) := by
  rw [squeeze, squeeze, upper, upper, List.filter_map]
  exact congrArg (fun p => (text.filter p).map Char.toUpper)
    (funext fun c => congrArg not (isBlank_toUpper c))

section TakeDrop

variable {p : Char → Bool}

/-- A test that does not tell cases apart can be made before or after reading as upper case. -/
theorem takeWhile_upper (hp : ∀ c : Char, p c.toUpper = p c) :
    (upper text).takeWhile p = upper (text.takeWhile p) := by
  rw [upper, List.takeWhile_map]
  exact congrArg (fun q => (text.takeWhile q).map Char.toUpper) (funext hp)

theorem dropWhile_upper (hp : ∀ c : Char, p c.toUpper = p c) :
    (upper text).dropWhile p = upper (text.dropWhile p) := by
  rw [upper, List.dropWhile_map]
  exact congrArg (fun q => (text.dropWhile q).map Char.toUpper) (funext hp)

theorem trim_upper : trim (upper text) = upper (trim text) := by
  rw [trim, trim, dropWhile_upper isBlank_toUpper, trimEnd, trimEnd, dropEndWhile, dropEndWhile,
    upper_reverse, dropWhile_upper isBlank_toUpper, upper_reverse]

end TakeDrop

/-! ## Lines -/

/-- Joining lines with line feeds and splitting them again gives the same lines. -/
theorem terminated_flatMap {texts : List (List Char)} (h : ∀ text ∈ texts, '\n' ∉ text) :
    terminated (· == '\n') (texts.flatMap fun text => text ++ ['\n']) = texts := by
  induction texts with
  | nil => rfl
  | cons text rest ih =>
    have hrest := ih fun other hother => h other (List.mem_cons_of_mem text hother)
    have htext : '\n' ∉ text := h text List.mem_cons_self
    rw [List.flatMap_cons, List.append_assoc, List.singleton_append]
    generalize rest.flatMap (fun text => text ++ ['\n']) = others at hrest ⊢
    -- The characters of the first line are put in front of an empty piece, last first.
    clear h ih
    induction text with
    | nil => rw [List.nil_append, terminated, if_pos (by decide), hrest]
    | cons c text ihText =>
      have hc : (c == '\n') = false := by
        rw [beq_eq_false_iff_ne]
        rintro rfl
        exact htext List.mem_cons_self
      have htail := ihText fun hmem => htext (List.mem_cons_of_mem c hmem)
      rw [List.cons_append, terminated, if_neg (by rw [hc]; decide), htail]

end Text
end Teach6809
