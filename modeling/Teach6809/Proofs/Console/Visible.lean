import Teach6809.Console

/-!
# What is visible of a text

Escape sequences are not seen, so what a text shows is what `decolor` leaves of it. Main statement:
however a console dresses a text for a channel, it shows the same; painting adds sequences in front
of and behind the text and wherever all styles end, and each of them is skipped as a whole, also
where the text itself breaks off inside a sequence.
-/

namespace Teach6809

variable {text opening tail : List Char} {c : Char}

@[simp] theorem decolor_nil : decolor [] = [] := by rw [decolor]

@[simp] theorem skipSequence_nil : skipSequence [] = [] := by rw [skipSequence]

theorem decolor_cons (hc : c ≠ escape) (rest : List Char) :
    decolor (c :: rest) = c :: decolor rest := by
  rw [decolor, if_neg hc]

theorem decolor_escape (rest : List Char) : decolor (escape :: rest) = skipSequence rest := by
  rw [decolor, if_pos rfl]

theorem skipSequence_cons (hc : c ≠ 'm') (rest : List Char) :
    skipSequence (c :: rest) = skipSequence rest := by
  rw [skipSequence, if_neg hc]

theorem skipSequence_m (rest : List Char) : skipSequence ('m' :: rest) = decolor rest := by
  rw [skipSequence, if_pos rfl]

/-! ## Sequences -/

theorem decolor_resetSequence_append (rest : List Char) :
    decolor (resetSequence ++ rest) = decolor rest := by
  simp [resetSequence, decolor_escape, skipSequence_cons, skipSequence_m]

theorem skipSequence_resetSequence_append (rest : List Char) :
    skipSequence (resetSequence ++ rest) = decolor rest := by
  simp [resetSequence, escape, skipSequence_cons, skipSequence_m]

/-- A style is not seen itself. -/
theorem decolor_opening_append (style : Style) (rest : List Char) :
    decolor (style.opening ++ rest) = decolor rest := by
  cases style <;>
    simp [Style.opening, Style.number, decolor_escape, skipSequence_cons, skipSequence_m]

/-- Ending all styles shows nothing, and what follows is outside of any sequence, also where the
text before broke off inside one. -/
theorem visible_append_resetSequence (text rest : List Char) :
    decolor (text ++ (resetSequence ++ rest)) = decolor text ++ decolor rest ∧
      skipSequence (text ++ (resetSequence ++ rest)) = skipSequence text ++ decolor rest := by
  induction text with
  | nil => exact ⟨decolor_resetSequence_append rest, skipSequence_resetSequence_append rest⟩
  | cons c text ih =>
    obtain ⟨ihdecolor, ihskip⟩ := ih
    rw [List.cons_append, decolor, decolor, skipSequence, skipSequence, ihdecolor, ihskip]
    constructor <;> split <;> rfl

/-! ## Painting -/

/-- Starting a style again wherever all styles end shows nothing, inside a sequence or not. -/
theorem visible_reopen (hopening : ∀ rest, decolor (opening ++ rest) = decolor rest)
    (text : List Char) :
    decolor (reopen opening text) = decolor text ∧
      skipSequence (reopen opening text) = skipSequence text := by
  fun_induction reopen opening text with
  | case1 rest ih =>
    -- After the end of all styles both are outside of any sequence.
    have hreset : '\x1b' :: '[' :: '0' :: 'm' :: rest = resetSequence ++ rest := rfl
    rw [hreset, List.append_assoc, decolor_resetSequence_append, decolor_resetSequence_append,
      skipSequence_resetSequence_append, skipSequence_resetSequence_append, hopening, ih.1]
    exact ⟨rfl, rfl⟩
  | case2 c rest _ ih =>
    rw [decolor, decolor, skipSequence, skipSequence, ih.1, ih.2]
    exact ⟨rfl, rfl⟩
  | case3 => exact ⟨rfl, rfl⟩

/-- Colour does not change what is visible. -/
theorem decolor_paint (color : Bool) (style : Style) (text : String) :
    decolor (paint color style text).toList = decolor text.toList := by
  unfold paint
  split
  · have hends := (visible_append_resetSequence (style.opening ++ reopen style.opening text.toList)
      []).1
    rw [List.append_nil, decolor_nil, List.append_nil] at hends
    rw [String.toList_ofList, hends, decolor_opening_append,
      (visible_reopen (decolor_opening_append style) _).1]
  · rfl

/-! ## Plain texts -/

theorem visible_ne_escape (text : List Char) :
    (∀ c ∈ decolor text, c ≠ escape) ∧ ∀ c ∈ skipSequence text, c ≠ escape := by
  induction text with
  | nil => simp
  | cons c rest ih =>
    rw [decolor, skipSequence]
    refine ⟨?_, ?_⟩
    · split
      · exact ih.2
      · rename_i hc
        exact List.forall_mem_cons.mpr ⟨hc, ih.1⟩
    · split
      · exact ih.1
      · exact ih.2

/-- A text without sequences is visible as it is. -/
theorem decolor_of_plain (h : ∀ c ∈ text, c ≠ escape) (rest : List Char) :
    decolor (text ++ rest) = text ++ decolor rest := by
  induction text with
  | nil => rfl
  | cons c text ih =>
    obtain ⟨hc, htext⟩ := List.forall_mem_cons.mp h
    rw [List.cons_append, decolor_cons hc, ih htext, List.cons_append]

/-- What is visible of a text has nothing more to hide. -/
theorem decolor_decolor (text : List Char) : decolor (decolor text) = decolor text := by
  have h := decolor_of_plain (visible_ne_escape text).1 []
  rwa [List.append_nil, decolor_nil, List.append_nil] at h

/-- However a console dresses a text, it shows the same. -/
theorem Console.decolor_dress (c : Console) (channel : Channel) (text : String) :
    decolor (c.dress channel text).toList = decolor text.toList := by
  unfold dress
  split
  · rw [String.toList_ofList, decolor_decolor]
  · cases channel with
    | normal => rfl
    | always | sometimes => exact decolor_paint c.color .blue text

/-! ## Texts one after another -/

/-- A text that shows `seen` and does not break off inside a sequence, so that what follows it is
seen behind it. -/
def Displays (text seen : List Char) : Prop :=
  ∀ rest, decolor (text ++ rest) = seen ++ decolor rest

theorem displays_of_not_mem (h : escape ∉ text) : Displays text text :=
  decolor_of_plain fun _ hc hescape => h (hescape ▸ hc)

namespace Displays

variable {seen other otherSeen : List Char}

theorem decolor_eq (h : Displays text seen) : decolor text = seen := by
  have hend := h []
  rwa [List.append_nil, decolor_nil, List.append_nil] at hend

theorem append (h : Displays text seen) (hother : Displays other otherSeen) :
    Displays (text ++ other) (seen ++ otherSeen) := by
  intro rest
  rw [List.append_assoc, h, hother, List.append_assoc]

section Pieces

variable {α : Type} {pieces : List α} {text seen : α → List Char}
  (h : ∀ piece ∈ pieces, Displays (text piece) (seen piece))
include h

theorem flatMap : Displays (pieces.flatMap text) (pieces.flatMap seen) := by
  induction pieces with
  | nil => exact displays_of_not_mem List.not_mem_nil
  | cons piece pieces ih =>
    rw [List.flatMap_cons, List.flatMap_cons]
    exact (h piece List.mem_cons_self).append
      (ih fun next hnext => h next (List.mem_cons_of_mem piece hnext))

theorem intercalate {mark markSeen : List Char} (hmark : Displays mark markSeen) :
    Displays (mark.intercalate (pieces.map text)) (markSeen.intercalate (pieces.map seen)) := by
  induction pieces with
  | nil => exact displays_of_not_mem List.not_mem_nil
  | cons piece pieces ih =>
    have hpiece := h piece List.mem_cons_self
    have hpieces := ih fun next hnext => h next (List.mem_cons_of_mem piece hnext)
    cases pieces with
    | nil => simpa using hpiece
    | cons next pieces =>
      rw [List.map_cons, List.map_cons, List.map_cons, List.map_cons, List.intercalate_cons_cons,
        List.intercalate_cons_cons]
      exact (hpiece.append hmark).append hpieces

end Pieces

/-- Painting ends every style that it starts, and with them any sequence. -/
theorem paint {text : String} (h : Displays text.toList seen) (color : Bool) (style : Style) :
    Displays (paint color style text).toList seen := by
  intro rest
  unfold Teach6809.paint
  split
  · rw [String.toList_ofList, List.append_assoc, (visible_append_resetSequence _ rest).1,
      decolor_opening_append, (visible_reopen (decolor_opening_append style) _).1, h.decolor_eq]
  · exact h rest

theorem dress {text : String} (h : Displays text.toList seen) (c : Console) (channel : Channel) :
    Displays (c.dress channel text).toList seen := by
  unfold Console.dress
  split
  · rw [String.toList_ofList, h.decolor_eq]
    refine displays_of_not_mem fun hmem => ?_
    rw [← h.decolor_eq] at hmem
    exact (visible_ne_escape text.toList).1 escape hmem rfl
  · cases channel with
    | normal => exact h
    | always | sometimes => exact h.paint c.color .blue

end Displays

end Teach6809
