import Mathlib.Data.List.Induction
import Teach6809.Debugger.LineEditor
import Teach6809.Proofs.Text.Blank

/-!
# Keys and the text they make

While the cursor is in the text that is shown, every printable key and every backspace does its
work there. One thing takes the cursor out of the text: entering a blank text clears it and leaves
the cursor in its column. Then the editor is stranded (`LineEditor.Stranded`), and every character
is lost until the cursor has been moved back to the start, or to another line. Main statement:
`strokes_of_keys`.
-/

namespace Teach6809

open Text

/-- Printable ASCII characters. -/
def Printable (c : Char) : Prop := 0x20 ≤ c.toNat ∧ c.toNat ≤ 0x7E

instance (c : Char) : Decidable (Printable c) := instDecidableAnd

/-- The editor as the key has left it. -/
def Pressed.editor : Pressed → LineEditor
  | .editing e => e
  | .cleared e => e
  | .entered e => e

/-- The editor for the next key. -/
def Pressed.next : Pressed → LineEditor
  | .editing e => e
  | .cleared e => e
  | .entered e => e.remember.newLine

namespace LineEditor

variable {e : LineEditor}

/-! ## The text that is shown -/

/-- Behind the history the text being typed is shown. -/
theorem current_of_length_le (h : e.history.length ≤ e.focus) : e.current = e.buffer := by
  rw [current, List.getElem?_eq_none h]
  rfl

/-- What is adopted is the text that is shown, and nothing moves. -/
theorem adopt_eq (e : LineEditor) :
    e.adopt.buffer = e.current ∧ e.adopt.cursor = e.cursor ∧ e.adopt.history = e.history ∧
      e.adopt.history.length ≤ e.adopt.focus := by
  unfold adopt current
  cases h : e.history[e.focus]? with
  | none => exact ⟨rfl, rfl, rfl, List.getElem?_eq_none_iff.mp h⟩
  | some line => exact ⟨rfl, rfl, rfl, Nat.le_refl _⟩

/-- A printable character goes in at the cursor. -/
theorem insert_eq {c : Char} (hcursor : e.cursor ≤ e.buffer.length) (hc : Printable c) :
    e.insert c =
      { e with buffer := e.buffer.take e.cursor ++ c :: e.buffer.drop e.cursor
               cursor := e.cursor + 1 } :=
  if_pos ⟨hcursor, Nat.lt_of_le_of_lt hc.2 (by decide)⟩

/-- The key of a printable character inserts it into the text that is shown. -/
theorem press_printable {c : Char} (hc : Printable c) (e : LineEditor) :
    e.press (.char c) = .editing (e.adopt.insert c) := by
  obtain ⟨hlow, hhigh⟩ := hc
  have hfeed : c ≠ '\n' := by
    rintro rfl
    exact absurd hlow (by decide)
  have hcontrol : isControl c = false := by
    simp only [isControl, Bool.or_eq_false_iff, decide_eq_false_iff_not, beq_eq_false_iff_ne]
    omega
  rw [press, if_neg hfeed, hcontrol, if_neg Bool.false_ne_true]

/-! ## What a key can do -/

/-- All that a key can lead to. -/
inductive Effect (e : LineEditor) : Pressed → Prop where
  | enter : Effect e (.entered e.adopt)
  | clear : e.history.length ≤ e.focus → Effect e (.cleared { e with buffer := [] })
  | idle : Effect e (.editing e)
  | insert {c : Char} : isControl c = false → Effect e (.editing (e.adopt.insert c))
  | backspace : Effect e (.editing e.adopt.backspace)
  | delete : Effect e (.editing e.adopt.delete)
  | left : Effect e (.editing { e with cursor := e.cursor - 1 })
  | right : e.cursor < e.current.length → Effect e (.editing { e with cursor := e.cursor + 1 })
  | focusOn {focus : Nat} : focus ≤ e.focus ∨ focus ≤ e.history.length →
      Effect e (.editing (e.focusOn focus))

/-- Entering a line gives it away or clears it. -/
theorem effect_enter (e : LineEditor) : Effect e e.enter := by
  unfold LineEditor.enter
  split
  · rename_i hblank
    exact .clear hblank.1
  · exact .enter

/-- Every key does one of these. -/
theorem effect_press (e : LineEditor) (key : Key) : Effect e (e.press key) := by
  cases key with
  | enter => exact effect_enter e
  | char c =>
    unfold press
    dsimp only
    split
    · exact effect_enter e
    · split
      · exact .idle
      · rename_i hcontrol
        exact .insert (Bool.eq_false_iff.mpr hcontrol)
  | backspace => exact .backspace
  | delete => exact .delete
  | left => exact .left
  | right =>
    unfold press
    dsimp only
    split
    · rename_i hcursor
      exact .right hcursor
    · exact .idle
  | up =>
    unfold press
    dsimp only
    split
    · exact .focusOn (.inl (Nat.sub_le _ _))
    · exact .idle
  | down =>
    unfold press
    dsimp only
    split
    · rename_i hfocus
      exact .focusOn (.inr hfocus)
    · exact .idle
  | other => exact .idle

/-! ## What every key keeps -/

/-- The line that is shown exists, and all texts are printable, so that columns, characters and
bytes of a text are counted alike. -/
structure Sound (e : LineEditor) : Prop where
  focus : e.focus ≤ e.history.length
  buffer : ∀ c ∈ e.buffer, Printable c
  history : ∀ line ∈ e.history, ∀ c ∈ line, Printable c

namespace Sound

/-- The text that is shown is printable. -/
theorem current (h : e.Sound) : ∀ c ∈ e.current, Printable c := by
  unfold LineEditor.current
  cases hline : e.history[e.focus]? with
  | none => exact h.buffer
  | some line => exact h.history line (List.mem_of_getElem? hline)

/-- Adopting the text that is shown keeps an editor sound. -/
theorem adopt (h : e.Sound) : e.adopt.Sound := by
  have hcurrent := h.current
  unfold LineEditor.current at hcurrent
  unfold LineEditor.adopt
  cases hline : e.history[e.focus]? with
  | none => exact h
  | some line =>
    rw [hline] at hcurrent
    exact ⟨Nat.le_refl _, hcurrent, h.history⟩

/-- What is inserted is printable or left out. -/
theorem insert (h : e.Sound) {c : Char} (hc : isControl c = false) : (e.insert c).Sound := by
  unfold LineEditor.insert
  split
  · rename_i hcursor
    refine ⟨h.focus, fun d hd => ?_, h.history⟩
    rcases List.mem_append.mp hd with hd | hd
    · exact h.buffer d (List.mem_of_mem_take hd)
    · rcases List.mem_cons.mp hd with rfl | hd
      · -- What is ASCII and no control character is printable.
        simp only [isControl, Bool.or_eq_false_iff, decide_eq_false_iff_not,
          beq_eq_false_iff_ne] at hc
        exact ⟨by omega, by omega⟩
      · exact h.buffer d (List.mem_of_mem_drop hd)
  · exact h

/-- Taking out a character leaves printable ones. -/
theorem backspace (h : e.Sound) : e.backspace.Sound := by
  unfold LineEditor.backspace
  split
  · exact ⟨h.focus, fun c hc => h.buffer c (List.mem_of_mem_eraseIdx hc), h.history⟩
  · exact h

theorem delete (h : e.Sound) : e.delete.Sound := by
  unfold LineEditor.delete
  split
  · exact ⟨h.focus, fun c hc => h.buffer c (List.mem_of_mem_eraseIdx hc), h.history⟩
  · exact h

/-- A line that is remembered is printable. -/
theorem remember (h : e.Sound) : e.remember.Sound := by
  refine ⟨Nat.le_refl _, h.buffer, ?_⟩
  intro line hline
  unfold LineEditor.remember at hline
  dsimp only at hline
  split at hline
  · exact h.history line hline
  · rcases List.mem_append.mp hline with hline | hline
    · exact h.history line hline
    · rw [List.mem_singleton.mp hline]
      exact h.buffer

theorem newLine (h : e.Sound) : e.newLine.Sound :=
  ⟨h.focus, fun _ hc => absurd hc List.not_mem_nil, h.history⟩

/-- No key makes an editor unsound. -/
theorem press (h : e.Sound) (key : Key) : (e.press key).editor.Sound := by
  have heffect := effect_press e key
  generalize e.press key = pressed at heffect
  cases heffect with
  | enter => exact h.adopt
  | clear => exact ⟨h.focus, fun c hc => absurd hc List.not_mem_nil, h.history⟩
  | idle => exact h
  | insert hc => exact h.adopt.insert hc
  | backspace => exact h.adopt.backspace
  | delete => exact h.adopt.delete
  | left => exact ⟨h.focus, h.buffer, h.history⟩
  | right => exact ⟨h.focus, h.buffer, h.history⟩
  | focusOn hfocus =>
    refine ⟨?_, h.buffer, h.history⟩
    rcases hfocus with hfocus | hfocus
    · exact Nat.le_trans hfocus h.focus
    · exact hfocus

theorem next (h : e.Sound) (key : Key) : (e.press key).next.Sound := by
  have hpressed := h.press key
  cases hpress : e.press key <;> rw [hpress] at hpressed
  case editing => exact hpressed
  case cleared => exact hpressed
  case entered => exact hpressed.remember.newLine

end Sound

/-! ## In the text -/

/-- The cursor is in the text that is shown, or at its end. -/
def InText (e : LineEditor) : Prop := e.cursor ≤ e.current.length

namespace InText

/-- While the text being typed is shown, it is its length that counts. -/
theorem iff_buffer (hfocus : e.history.length ≤ e.focus) :
    e.InText ↔ e.cursor ≤ e.buffer.length := by
  rw [InText, current_of_length_le hfocus]

/-- Adopting a text keeps the cursor in it. -/
theorem adopt (h : e.InText) : e.adopt.InText := by
  obtain ⟨hbuffer, hcursor, -, hfocus⟩ := e.adopt_eq
  rw [iff_buffer hfocus, hbuffer, hcursor]
  exact h

section Typing

variable (hfocus : e.history.length ≤ e.focus)
include hfocus

/-- The cursor goes to the right with the character. -/
theorem insert (h : e.InText) (c : Char) : (e.insert c).InText := by
  rw [iff_buffer hfocus] at h
  unfold LineEditor.insert
  split
  · refine (iff_buffer (by exact hfocus)).mpr ?_
    simp only [List.length_append, List.length_cons, List.length_take, List.length_drop]
    omega
  · exact (iff_buffer hfocus).mpr h

/-- The cursor goes to the left before the text gets shorter. -/
theorem backspace (h : e.InText) : e.backspace.InText := by
  rw [iff_buffer hfocus] at h
  unfold LineEditor.backspace
  split
  · refine (iff_buffer (by exact hfocus)).mpr ?_
    dsimp only
    rw [List.length_eraseIdx_of_lt (by omega)]
    omega
  · exact (iff_buffer hfocus).mpr h

/-- Behind the cursor there is still a character to take out. -/
theorem delete (h : e.InText) : e.delete.InText := by
  rw [iff_buffer hfocus] at h
  unfold LineEditor.delete
  split
  · refine (iff_buffer (by exact hfocus)).mpr ?_
    dsimp only
    rw [List.length_eraseIdx_of_lt (by omega)]
    omega
  · exact (iff_buffer hfocus).mpr h

end Typing

/-- Only clearing the text can leave the cursor behind. -/
theorem next (h : e.InText) {key : Key} (hkey : ∀ n, e.press key ≠ .cleared n) :
    (e.press key).next.InText := by
  -- A key that changes the text adopts it first, and then it is the text being typed.
  obtain ⟨-, -, -, hfocus⟩ := e.adopt_eq
  have heffect := effect_press e key
  generalize e.press key = pressed at heffect hkey
  cases heffect with
  | enter => exact Nat.zero_le _
  | clear => exact absurd rfl (hkey _)
  | idle => exact h
  | insert => exact insert hfocus h.adopt _
  | backspace => exact backspace hfocus h.adopt
  | delete => exact delete hfocus h.adopt
  | left => exact Nat.le_trans (Nat.sub_le _ _) h
  | right hlt => exact hlt
  | focusOn => exact Nat.le_refl _

end InText

/-! ## Beyond the text -/

/-- The text was cleared, and the cursor stands behind its start. -/
structure Stranded (e : LineEditor) : Prop where
  buffer : e.buffer = []
  focus : e.focus = e.history.length
  cursor : 0 < e.cursor

namespace Stranded

/-- Nothing is shown. -/
theorem current (h : e.Stranded) : e.current = [] := by
  rw [current_of_length_le (Nat.le_of_eq h.focus.symm), h.buffer]

/-- So the cursor is beyond the text. -/
theorem not_inText (h : e.Stranded) : ¬ e.InText := by
  rw [InText, h.current]
  exact Nat.not_le_of_lt h.cursor

theorem adopt (h : e.Stranded) : e.adopt = e := by
  rw [LineEditor.adopt, List.getElem?_eq_none (Nat.le_of_eq h.focus.symm)]

/-- Beyond the text nothing is inserted. -/
theorem insert (h : e.Stranded) (c : Char) : e.insert c = e := by
  have hcursor := h.cursor
  rw [LineEditor.insert, if_neg]
  rw [h.buffer, List.length_nil]
  omega

/-- Beyond the text nothing is taken out. -/
theorem backspace (h : e.Stranded) : e.backspace = e := by
  have hcursor := h.cursor
  rw [LineEditor.backspace, if_neg]
  rw [h.buffer, List.length_nil]
  omega

/-- Entering a blank text once more leaves the cursor where it was. -/
theorem enter (h : e.Stranded) : e.enter = .cleared e := by
  have hbuffer : { e with buffer := [] } = e := by
    rw [← h.buffer]
  rw [LineEditor.enter, if_pos ⟨Nat.le_of_eq h.focus.symm, by rw [h.buffer]; rfl⟩, hbuffer]

/-- No character gets into the text. -/
theorem press_char (h : e.Stranded) {c : Char} (hc : Printable c) :
    e.press (.char c) = .editing e := by
  rw [press_printable hc, h.adopt, h.insert]

/-- Keys have no effect, except those that move the cursor to the left or show another line. -/
theorem next (h : e.Stranded) (key : Key) :
    (e.press key).next =
      if key = .left then { e with cursor := e.cursor - 1 }
      else if key = .up ∧ e.history ≠ [] then e.focusOn (e.history.length - 1)
      else e := by
  cases key with
  | enter => simp [press, h.enter, Pressed.next]
  | char c =>
    simp only [press, h.enter, h.adopt, h.insert]
    split
    · rfl
    · split <;> rfl
  | backspace => simp [press, h.adopt, h.backspace, Pressed.next]
  | delete => simp [press, h.adopt, delete, h.buffer, Pressed.next]
  | left => rfl
  | right => simp [press, h.current, Pressed.next]
  | up =>
    simp only [press, Pressed.next, h.focus, List.length_pos_iff, true_and, reduceCtorEq, if_false]
  | down => simp [press, h.focus, Pressed.next]
  | other => rfl

end Stranded

/-! ## Lists of keys -/

/-- The editor after some keys, over any number of lines. -/
def after (e : LineEditor) (keys : List Key) : LineEditor :=
  keys.foldl (fun e key => (e.press key).next) e

/-- One more key is pressed in the editor that the others have left. -/
theorem after_snoc (e : LineEditor) (keys : List Key) (key : Key) :
    e.after (keys ++ [key]) = ((e.after keys).press key).next :=
  List.foldl_concat _ _ _ _

/-- Later keys are typed into the editor that earlier keys have left. -/
theorem typed_append (keys later : List Key) (e : LineEditor) (frames : List String) :
    ∃ drawn, e.typed frames (keys ++ later) =
      e.typed frames keys ++ (e.after keys).typed drawn later := by
  -- The frames drawn so far go with the line they belong to, so the induction keeps them free.
  induction keys generalizing e frames with
  | nil => exact ⟨frames, rfl⟩
  | cons key keys ih =>
    rw [List.cons_append, typed, typed]
    cases hpress : e.press key with
    | editing next =>
      obtain ⟨drawn, hdrawn⟩ := ih next (e.prompt :: frames)
      refine ⟨drawn, ?_⟩
      rw [after, List.foldl_cons, hpress]
      exact hdrawn
    | cleared next =>
      obtain ⟨drawn, hdrawn⟩ := ih next ((e.prompt ++ "\n") :: frames)
      refine ⟨drawn, ?_⟩
      rw [after, List.foldl_cons, hpress]
      exact hdrawn
    | entered next =>
      obtain ⟨drawn, hdrawn⟩ := ih next.remember.newLine []
      refine ⟨drawn, ?_⟩
      rw [after, List.foldl_cons, hpress, List.append_assoc]
      dsimp only
      rw [hdrawn]
      rfl

/-- Whatever keys are typed, the editor is sound. -/
theorem sound_after (keys : List Key) : (new.after keys).Sound := by
  induction keys using List.reverseRecOn with
  | nil =>
    exact ⟨Nat.le_refl _, fun c hc => absurd hc List.not_mem_nil,
      fun line hline => absurd hline List.not_mem_nil⟩
  | append_singleton keys key ih =>
    rw [after_snoc]
    exact ih.next key

/-- A blank text was entered with the cursor behind its start. Since then, the cursor was moved to
the left less often than to the start, and no earlier line was shown. -/
def LeftBehind (keys : List Key) : Prop :=
  ∃ before key since, keys = before ++ key :: since ∧
    (∃ e, (new.after before).press key = .cleared e) ∧
    since.count .left < (new.after before).cursor ∧
    (.up ∈ since → (new.after before).history = [])

section LeftBehind

variable {before since : List Key} {key : Key}

/-- Entering a blank text keeps the cursor and the earlier lines. -/
theorem next_of_cleared (hclear : (new.after before).press key = .cleared e) :
    e.buffer = [] ∧ e.focus = e.history.length ∧ e.cursor = (new.after before).cursor ∧
      e.history = (new.after before).history := by
  have hfocus := (sound_after before).focus
  have heffect := effect_press (new.after before) key
  -- No other effect clears the text.
  rw [hclear] at heffect
  cases heffect with
  | clear h => exact ⟨rfl, Nat.le_antisymm hfocus h, rfl, rfl⟩

/-- What became of the cursor since a blank text was entered. -/
theorem stranded_since (hclear : (new.after before).press key = .cleared e)
    (hleft : since.count .left < (new.after before).cursor)
    (hup : .up ∈ since → (new.after before).history = []) :
    let n := new.after (before ++ key :: since)
    n.Stranded ∧ n.cursor = (new.after before).cursor - since.count .left ∧
      n.history = (new.after before).history := by
  obtain ⟨hbuffer, hfocus, hcursor, hhistory⟩ := next_of_cleared hclear
  -- Every key since was pressed in a stranded editor, and moved the cursor to the left or was lost.
  induction since using List.reverseRecOn with
  | nil =>
    rw [after_snoc, hclear]
    refine ⟨⟨hbuffer, hfocus, ?_⟩, hcursor, hhistory⟩
    show 0 < e.cursor
    rw [hcursor]
    exact hleft
  | append_singleton since last ih =>
    rw [List.count_append] at hleft
    obtain ⟨hstranded, hn, hsame⟩ :=
      ih (by omega) fun hmem => hup (List.mem_append_left _ hmem)
    rw [← List.cons_append, ← List.append_assoc, after_snoc, hstranded.next, List.count_append]
    generalize new.after (before ++ key :: since) = n at hstranded hn hsame
    by_cases hlast : last = .left
    · rw [if_pos hlast]
      rw [hlast, List.count_singleton_self] at hleft ⊢
      refine ⟨⟨hstranded.buffer, hstranded.focus, ?_⟩, ?_, hsame⟩
      · show 0 < n.cursor - 1
        omega
      · show n.cursor - 1 = _
        omega
    · have hnone : [last].count Key.left = 0 := by simp [hlast]
      have hstays : ¬ (last = .up ∧ n.history ≠ []) := by
        intro h
        refine h.2 (hsame.trans (hup ?_))
        rw [h.1]
        exact List.mem_append_right _ (List.mem_singleton_self _)
      rw [if_neg hlast, if_neg hstays, hnone]
      exact ⟨hstranded, hn, hsame⟩

end LeftBehind

/-- A key either takes a cursor that was left behind back into the text, or leaves it there. -/
theorem LeftBehind.snoc {keys : List Key} (h : LeftBehind keys) (key : Key) :
    (new.after (keys ++ [key])).InText ∨ LeftBehind (keys ++ [key]) := by
  obtain ⟨before, entered, since, rfl, ⟨e, hclear⟩, hleft, hup⟩ := h
  obtain ⟨hstranded, hcursor, hhistory⟩ := stranded_since hclear hleft hup
  -- The split of the list stays, with one more key since the text was cleared.
  have hsplit : before ++ entered :: since ++ [key] = before ++ entered :: (since ++ [key]) := by
    simp
  by_cases hkey : key = .left
  · by_cases hlast : since.count .left + 1 < (new.after before).cursor
    · refine .inr ⟨before, entered, since ++ [key], hsplit, ⟨e, hclear⟩, ?_, fun hmem => hup ?_⟩
      · rwa [hkey, List.count_append, List.count_singleton_self]
      · rw [hkey] at hmem
        simpa using hmem
    · left
      rw [after_snoc, hstranded.next, if_pos hkey]
      show (new.after (before ++ entered :: since)).cursor - 1 ≤ _
      omega
  · by_cases hleaves : key = .up ∧ (new.after (before ++ entered :: since)).history ≠ []
    · left
      rw [after_snoc, hstranded.next, if_neg hkey, if_pos hleaves]
      exact Nat.le_refl _
    · refine .inr ⟨before, entered, since ++ [key], hsplit, ⟨e, hclear⟩, ?_, fun hmem => ?_⟩
      · rw [List.count_append, List.count_singleton]
        simpa [hkey] using hleft
      · rcases List.mem_append.mp hmem with hmem | hmem
        · exact hup hmem
        · rw [← hhistory]
          exact not_not.mp fun hne => hleaves ⟨(List.mem_singleton.mp hmem).symm, hne⟩

/-- The cursor is in the text, unless it was left behind. -/
theorem inText_or_leftBehind (keys : List Key) : (new.after keys).InText ∨ LeftBehind keys := by
  induction keys using List.reverseRecOn with
  | nil => exact .inl (Nat.le_refl 0)
  | append_singleton keys key ih =>
    rcases ih with hin | hbehind
    · -- From the text, the cursor can only be left behind by clearing it, and only off its start.
      rw [after_snoc]
      by_cases hclear : ∃ e, (new.after keys).press key = .cleared e
      · obtain ⟨e, hclear⟩ := hclear
        by_cases hcursor : 0 < (new.after keys).cursor
        · exact .inr ⟨keys, key, [], rfl, ⟨e, hclear⟩, hcursor, fun h => absurd h List.not_mem_nil⟩
        · left
          rw [hclear]
          show e.cursor ≤ e.current.length
          rw [(next_of_cleared hclear).2.2.1]
          omega
      · exact .inl (hin.next fun n hn => hclear ⟨n, hn⟩)
    · exact hbehind.snoc key

/-- A cursor that was left behind is beyond an empty text. -/
theorem LeftBehind.stranded {keys : List Key} (h : LeftBehind keys) :
    (new.after keys).Stranded := by
  obtain ⟨before, key, since, rfl, ⟨e, hclear⟩, hleft, hup⟩ := h
  exact (stranded_since hclear hleft hup).1

/-! ## Strokes -/

/-- The line is still being edited; this text is shown, and the cursor is in this column. -/
def Pressed.Shows (pressed : Pressed) (text : List Char) (cursor : Nat) : Prop :=
  ∃ e, pressed = .editing e ∧ e.current = text ∧ e.cursor = cursor

/-- A printable character goes to the cursor, and the cursor behind it. -/
theorem InText.press_char (h : e.InText) {c : Char} (hc : Printable c) :
    Pressed.Shows (e.press (.char c)) (e.current.take e.cursor ++ c :: e.current.drop e.cursor)
      (e.cursor + 1) := by
  obtain ⟨hbuffer, hcursor, -, hfocus⟩ := e.adopt_eq
  refine ⟨_, press_printable hc e, ?_, ?_⟩
  · rw [insert_eq ((InText.iff_buffer hfocus).mp h.adopt) hc, ← hbuffer, ← hcursor]
    exact current_of_length_le hfocus
  · rw [insert_eq ((InText.iff_buffer hfocus).mp h.adopt) hc, hcursor]

/-- Backspace takes out the character before the cursor. -/
theorem InText.press_backspace (h : e.InText) (hstart : 0 < e.cursor) :
    Pressed.Shows (e.press .backspace) (e.current.eraseIdx (e.cursor - 1)) (e.cursor - 1) := by
  obtain ⟨hbuffer, hcursor, -, hfocus⟩ := e.adopt_eq
  have herases : e.adopt.backspace =
      { e.adopt with buffer := e.adopt.buffer.eraseIdx (e.adopt.cursor - 1)
                     cursor := e.adopt.cursor - 1 } :=
    if_pos ⟨by rwa [hcursor], (InText.iff_buffer hfocus).mp h.adopt⟩
  refine ⟨_, rfl, ?_, ?_⟩
  · rw [herases, ← hbuffer, ← hcursor]
    exact current_of_length_le hfocus
  · rw [herases, hcursor]

/-- The prompt goes back over the characters that are behind the cursor. -/
theorem InText.prompt_eq (h : e.InText) :
    ∃ columns, e.prompt =
        "\x1b[1;34mCommand: \x1b[0m" ++ String.ofList e.current ++ moveLeft columns ∧
      e.cursor + columns = e.current.length :=
  ⟨_, rfl, Nat.add_sub_of_le h⟩

/-- Some keys were typed on a fresh terminal, and later keys are typed into the editor that they
have left. Its cursor is beyond the text that is shown exactly if it was left behind when a blank
text was entered. Otherwise every printable character is put at the cursor, backspace takes out the
character before it, and the prompt leaves the cursor of the terminal there; texts are printable
ASCII. Where the cursor was left behind, the text is empty, and characters and backspaces are
lost. -/
theorem strokes_of_keys (keys : List Key) :
    let e := new.after keys
    (∀ later, ∃ drawn, Script.ofKeys (keys ++ later) = Script.ofKeys keys ++ e.typed drawn later) ∧
    (e.current.length < e.cursor ↔ LeftBehind keys) ∧
    (∀ c ∈ e.current, Printable c) ∧
    (e.cursor ≤ e.current.length →
      (∀ c, Printable c → Pressed.Shows (e.press (.char c))
        (e.current.take e.cursor ++ c :: e.current.drop e.cursor) (e.cursor + 1)) ∧
      (0 < e.cursor → Pressed.Shows (e.press .backspace)
        (e.current.eraseIdx (e.cursor - 1)) (e.cursor - 1)) ∧
      ∃ columns, e.prompt =
          "\x1b[1;34mCommand: \x1b[0m" ++ String.ofList e.current ++ moveLeft columns ∧
        e.cursor + columns = e.current.length) ∧
    (LeftBehind keys → e.current = [] ∧ e.press .backspace = .editing e ∧
      ∀ c, Printable c → e.press (.char c) = .editing e) := by
  intro e
  refine ⟨fun later => typed_append keys later new [], ?_, (sound_after keys).current, ?_, ?_⟩
  · constructor
    · intro hbeyond
      exact (inText_or_leftBehind keys).resolve_left (Nat.not_le_of_lt hbeyond)
    · intro hbehind
      exact Nat.lt_of_not_le hbehind.stranded.not_inText
  · intro hin
    exact ⟨fun c => InText.press_char hin, InText.press_backspace hin, InText.prompt_eq hin⟩
  · intro hbehind
    have hstranded := hbehind.stranded
    refine ⟨hstranded.current, ?_, fun c => hstranded.press_char⟩
    show Pressed.editing e.adopt.backspace = .editing e
    rw [hstranded.adopt, hstranded.backspace]

/-- A line entered, shown again and changed in the middle. -/
theorem strokes_of_keys_middle :
    let keys : List Key := [.char 'r', .char 'n', .enter, .up, .left]
    let e := new.after keys
    e.current = ['r', 'n'] ∧ e.cursor = 1 ∧
      Pressed.Shows (e.press (.char 'u')) ['r', 'u', 'n'] 2 ∧
      Pressed.Shows (e.press .backspace) ['n'] 0 := by
  intro keys e
  obtain ⟨-, -, -, hin, -⟩ := strokes_of_keys keys
  obtain ⟨hchar, hback, -⟩ := hin (by decide)
  exact ⟨by decide, by decide, hchar 'u' (by decide), hback (by decide)⟩

/-- A space is entered, and `step` behind it: the cursor is beyond the text, every key is lost, and
there is no command. -/
theorem strokes_of_keys_blank :
    let keys : List Key := [.char ' ', .enter]
    let e := new.after keys
    ¬ e.cursor ≤ e.current.length ∧ e.press (.char 's') = .editing e ∧
      (Script.ofKeys (keys ++ "step".toList.map .char ++ [.enter])).map Typed.command = [] := by
  decide

end LineEditor
end Teach6809
