import Teach6809.Proofs.Text.Blank
import Teach6809.Proofs.Text.Pieces

/-!
# Words of a text

The words of a text are cut at white space, so they are those on both sides of any white space in it
(`words_append_cons`). From this one equation: white space at the ends does not count, the first
word and the others are found as a reader finds them, and words joined by spaces are found again.
-/

namespace Teach6809
namespace Text

variable {text before after word : List Char} {name : List Char} {others : List (List Char)}
  {c : Char}

theorem words_nil : words [] = [] := by
  rw [words, separated]
  rfl

/-- A text is cut into words at every white space in it. -/
theorem words_append_cons (hc : isBlank c = true) (before after : List Char) :
    words (before ++ c :: after) = words before ++ words after := by
  unfold words
  rw [separated_eq_splitOnP, separated_eq_splitOnP, separated_eq_splitOnP,
    List.splitOnP_append_cons before after hc, List.filter_append]

theorem words_cons (hc : isBlank c = true) (text : List Char) : words (c :: text) = words text := by
  have hcut := words_append_cons hc [] text
  rwa [words_nil, List.nil_append, List.nil_append] at hcut

theorem words_append_blank (hafter : allBlank after = true) :
    words (text ++ after) = words text := by
  induction after generalizing text with
  | nil => rw [List.append_nil]
  | cons c rest ih =>
    rw [allBlank, List.all_cons, Bool.and_eq_true] at hafter
    have hrest : words ([] ++ rest) = words [] := ih hafter.2
    rw [List.nil_append] at hrest
    rw [words_append_cons hafter.1, hrest, words_nil, List.append_nil]

theorem words_blank_append (hbefore : allBlank before = true) :
    words (before ++ text) = words text := by
  induction before with
  | nil => rfl
  | cons c rest ih =>
    rw [allBlank, List.all_cons, Bool.and_eq_true] at hbefore
    rw [List.cons_append, words_cons hbefore.1, ih hbefore.2]

/-- White space at the ends of a text does not count. -/
theorem words_trim (text : List Char) : words (trim text) = words text := by
  obtain ⟨before, after, hbefore, hafter, hsplit⟩ := exists_trim text
  conv => rhs; rw [hsplit, words_append_blank hafter, words_blank_append hbefore]

/-- A text without white space is a word. -/
theorem words_word (hne : word ≠ []) (hword : ∀ c ∈ word, isBlank c = false) :
    words word = [word] := by
  rw [words, separated_eq_splitOnP, List.splitOnP_eq_singleton hword]
  simp [hne]

/-- A word, and then the words behind it. -/
theorem words_word_append (hne : word ≠ []) (hword : ∀ c ∈ word, isBlank c = false)
    (hafter : ∀ c ∈ after.head?, isBlank c = true) :
    words (word ++ after) = word :: words after := by
  cases after with
  | nil => rw [List.append_nil, words_word hne hword, words_nil]
  | cons c rest =>
    have hc := hafter c rfl
    rw [words_append_cons hc, words_word hne hword, words_cons hc]
    rfl

/-- The first word of a text goes up to white space, and the other words are behind it. -/
theorem words_eq_cons (h : words text = name :: others) :
    (trim text).takeWhile isVisible = name ∧ words ((trim text).dropWhile isVisible) = others := by
  rw [← words_trim] at h
  have hsplit := (trim text).takeWhile_append_dropWhile (p := isVisible)
  have hword : ∀ c ∈ (trim text).takeWhile isVisible, isBlank c = false := by
    intro c hc
    exact isVisible_iff.mp (List.mem_takeWhile_imp hc)
  have hafter : ∀ c ∈ ((trim text).dropWhile isVisible).head?, isBlank c = true := by
    intro c hc
    cases hdrop : (trim text).dropWhile isVisible with
    | nil =>
      rw [hdrop] at hc
      cases hc
    | cons d rest =>
      rw [hdrop] at hc
      cases hc
      have hvisible := dropWhile_eq_cons hdrop
      rwa [isVisible, Bool.not_eq_false'] at hvisible
  -- A trimmed text that has words starts with one.
  have hne : (trim text).takeWhile isVisible ≠ [] := by
    cases htrim : trim text with
    | nil =>
      rw [htrim, words_nil] at h
      cases h
    | cons c rest =>
      rw [List.takeWhile_cons_of_pos (isVisible_iff.mpr (trim_eq_cons htrim))]
      exact List.cons_ne_nil _ _
  rw [← hsplit, words_word_append hne hword hafter, List.cons.injEq] at h
  exact h

/-- Words have characters, and no white space. -/
theorem mem_words (h : word ∈ words text) : word ≠ [] ∧ ∀ c ∈ word, isBlank c = false := by
  obtain ⟨hpiece, hne⟩ := List.mem_filter.mp h
  refine ⟨?_, eq_false_of_mem_separated hpiece⟩
  rintro rfl
  cases hne

/-- Words joined by spaces are found again. -/
theorem words_intercalate {row : List (List Char)}
    (h : ∀ word ∈ row, word ≠ [] ∧ ∀ c ∈ word, isBlank c = false) :
    words ([' '].intercalate row) = row := by
  induction row with
  | nil => exact words_nil
  | cons word rest ih =>
    obtain ⟨hne, hword⟩ := h word List.mem_cons_self
    have hrest := ih fun other hother => h other (List.mem_cons_of_mem word hother)
    -- The last word has no space behind it.
    cases rest with
    | nil =>
      rw [List.intercalate_singleton]
      exact words_word hne hword
    | cons next rest =>
      have hspace : isBlank ' ' = true := by decide
      rw [List.intercalate_cons_cons, List.append_assoc, List.singleton_append,
        words_append_cons hspace, words_word hne hword, hrest]
      rfl

end Text
end Teach6809
