import Teach6809.Text.Split

/-!
# Pieces of a text

Where the pieces of a split text stand in it. A piece holds no mark; behind it the text ends, or a
mark follows and then the text of the other pieces. Cutting at separators is the library's
`List.splitOnP`; cutting at terminators gives the same pieces, except that there may be an empty one
less at the end.
-/

namespace Teach6809
namespace Text

variable {isMark : Char → Bool} {text piece : List Char} {pieces : List (List Char)}

/-- A text without pieces has no characters. -/
theorem terminated_eq_nil : terminated isMark text = [] ↔ text = [] := by
  constructor
  · intro h
    cases text with
    | nil => rfl
    | cons c rest =>
      unfold terminated at h
      split at h
      · simp at h
      · split at h <;> simp at h
  · intro h
    rw [h, terminated]

/-- The first piece of a text goes up to the first mark or to the end. -/
theorem terminated_eq_cons (h : terminated isMark text = piece :: pieces) :
    (∀ c ∈ piece, isMark c = false) ∧
      (text = piece ∧ pieces = [] ∨
        ∃ mark below, isMark mark = true ∧ text = piece ++ mark :: below ∧
          terminated isMark below = pieces) := by
  induction text generalizing piece with
  | nil => simp [terminated] at h
  | cons c rest ih =>
    unfold terminated at h
    split at h
    · rename_i hmark
      -- The text starts with a mark, so the piece before it is empty.
      obtain ⟨rfl, hpieces⟩ := List.cons.inj h
      exact ⟨by simp, .inr ⟨c, rest, hmark, rfl, hpieces⟩⟩
    · rename_i hc
      rw [Bool.not_eq_true] at hc
      split at h
      · rename_i hrest
        obtain ⟨rfl, rfl⟩ := List.cons.inj h
        rw [terminated_eq_nil.mp hrest]
        exact ⟨by simpa using hc, .inl ⟨rfl, rfl⟩⟩
      · rename_i first others hrest
        obtain ⟨rfl, rfl⟩ := List.cons.inj h
        obtain ⟨hpiece, hends⟩ := ih hrest
        refine ⟨by simpa [hc] using hpiece, ?_⟩
        rcases hends with ⟨rfl, hnone⟩ | ⟨mark, below, hmark, rfl, hbelow⟩
        · exact .inl ⟨rfl, hnone⟩
        · exact .inr ⟨mark, below, hmark, rfl, hbelow⟩

/-! ## Separators -/

theorem separated_eq_splitOnP (isMark : Char → Bool) (text : List Char) :
    separated isMark text = text.splitOnP isMark := by
  induction text with
  | nil => rw [separated, List.splitOnP_nil]
  | cons c rest ih =>
    rw [separated, List.splitOnP_cons_eq_if_modifyHead, ih]
    split
    · rfl
    · cases h : rest.splitOnP isMark with
      | nil => exact absurd h (List.splitOnP_ne_nil isMark rest)
      | cons piece pieces => rfl

/-- No piece holds a mark. -/
theorem eq_false_of_mem_separated (h : piece ∈ separated isMark text) :
    ∀ c ∈ piece, isMark c = false := by
  induction text generalizing piece with
  | nil =>
    rw [separated, List.mem_singleton] at h
    simp [h]
  | cons c rest ih =>
    rw [separated] at h
    split at h
    · rcases List.mem_cons.mp h with rfl | h
      · simp
      · exact ih h
    · rename_i hc
      rw [Bool.not_eq_true] at hc
      -- The character goes to the first piece of the rest, and there is always one.
      obtain ⟨first, others, hrest⟩ := List.exists_cons_of_ne_nil (separated_ne_nil isMark rest)
      rw [hrest] at h ih
      rcases List.mem_cons.mp h with rfl | h
      · simpa [hc] using ih List.mem_cons_self
      · exact ih (List.mem_cons_of_mem first h)

/-- A terminator at the end of a text ends its last piece; a separator starts an empty one. -/
theorem separated_eq_terminated_or (isMark : Char → Bool) (text : List Char) :
    separated isMark text = terminated isMark text ∨
      separated isMark text = terminated isMark text ++ [[]] := by
  induction text with
  | nil => exact .inr rfl
  | cons c rest ih =>
    rw [separated, terminated]
    split
    · rcases ih with h | h
      · exact .inl (by rw [h])
      · exact .inr (by rw [h]; rfl)
    · cases hrest : terminated isMark rest with
      | nil =>
        rw [terminated_eq_nil.mp hrest]
        exact .inl rfl
      | cons piece pieces =>
        rw [hrest] at ih
        rcases ih with h | h
        · exact .inl (by rw [h])
        · exact .inr (by rw [h]; rfl)

/-- What follows a text without a mark in it belongs to the last piece. -/
theorem exists_separated_append (isMark : Char → Bool) (text : List Char) :
    ∃ front last, ∀ after, (∀ c ∈ after, isMark c = false) →
      separated isMark (text ++ after) = front ++ [last ++ after] := by
  induction text with
  | nil =>
    refine ⟨[], [], fun after hafter => ?_⟩
    rw [separated_eq_splitOnP]
    exact List.splitOnP_eq_singleton hafter
  | cons c rest ih =>
    obtain ⟨front, last, hrest⟩ := ih
    by_cases hc : isMark c = true
    · refine ⟨[] :: front, last, fun after hafter => ?_⟩
      rw [List.cons_append, separated, if_pos hc, hrest after hafter]
      rfl
    · -- The character goes in front of the first piece, which may be the last.
      cases front with
      | nil =>
        refine ⟨[], c :: last, fun after hafter => ?_⟩
        rw [List.cons_append, separated, if_neg hc, hrest after hafter]
        rfl
      | cons piece front =>
        refine ⟨(c :: piece) :: front, last, fun after hafter => ?_⟩
        rw [List.cons_append, separated, if_neg hc, hrest after hafter]
        rfl

/-- A text can be cut at marks of two sorts one sort after the other. -/
theorem separated_or (p q : Char → Bool) (text : List Char) :
    separated (fun c => p c || q c) text = (separated p text).flatMap (separated q) := by
  induction text with
  | nil => rfl
  | cons c rest ih =>
    rw [separated, ih, separated]
    obtain ⟨piece, pieces, hp⟩ := List.exists_cons_of_ne_nil (separated_ne_nil p rest)
    obtain ⟨first, others, hq⟩ := List.exists_cons_of_ne_nil (separated_ne_nil q piece)
    by_cases hpc : p c = true
    · rw [hpc, Bool.true_or, if_pos rfl, if_pos rfl]
      rfl
    · rw [if_neg hpc, hp, List.flatMap_cons, List.flatMap_cons, separated, hq]
      rw [Bool.not_eq_true] at hpc
      rw [hpc, Bool.false_or]
      split <;> rfl

/-- A joined text has the characters of its pieces and of the mark between them. -/
theorem not_mem_intercalate {c : Char} {mark : List Char} (hmark : c ∉ mark)
    (h : ∀ piece ∈ pieces, c ∉ piece) : c ∉ mark.intercalate pieces := by
  induction pieces with
  | nil => exact List.not_mem_nil
  | cons piece pieces ih =>
    have hpiece := h piece List.mem_cons_self
    cases pieces with
    | nil => rwa [List.intercalate_singleton]
    | cons next pieces =>
      have hpieces := ih fun other hother => h other (List.mem_cons_of_mem piece hother)
      rw [List.intercalate_cons_cons, List.mem_append, List.mem_append]
      exact fun hmem => hmem.elim (fun hmem => hmem.elim hpiece hmark) hpieces

end Text
end Teach6809
