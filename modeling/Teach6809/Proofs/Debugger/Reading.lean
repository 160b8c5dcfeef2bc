import Mathlib.Data.List.Chain
import Teach6809.Proofs.Debugger.Script

/-!
# Reading that cannot fail

Whoever reads commands keeps those of a line in a queue and takes the first; the line editor puts
characters into a text and takes them out, at a byte. Both can fail: a queue can be empty, a byte
can be beyond the text or inside a character. Here reading is written with these failures
(`LineEditor.press?`, `Terminal.read?`, `Piped.read?`). In every state that reading leads to, the
editor is in order (`LineEditor.Tidy`), and from there nothing fails. Main statement:
`safe_of_reads`.
-/

namespace Teach6809

open Text

/-! ## Keys -/

namespace LineEditor

/-- `LineEditor.insert` with the cursor as a byte. -/
def insert? (e : LineEditor) (c : Char) : Option LineEditor :=
  if e.cursor ≤ utf8Length e.buffer ∧ c.toNat < 128 then
    (insertAt? e.buffer e.cursor c).map fun buffer => { e with buffer, cursor := e.cursor + 1 }
  else some e

/-- `LineEditor.backspace` with the cursor as a byte. -/
def backspace? (e : LineEditor) : Option LineEditor :=
  if 0 < e.cursor ∧ e.cursor ≤ utf8Length e.buffer then
    (removeAt? e.buffer (e.cursor - 1)).map fun buffer =>
      { e with buffer, cursor := e.cursor - 1 }
  else some e

/-- `LineEditor.delete` with the cursor as a byte. -/
def delete? (e : LineEditor) : Option LineEditor :=
  if e.cursor < utf8Length e.buffer then
    (removeAt? e.buffer e.cursor).map fun buffer => { e with buffer }
  else some e

/-- `LineEditor.focusOn` with the cursor as a byte. -/
def focusAt (e : LineEditor) (focus : Nat) : LineEditor :=
  let moved := { e with focus }
  { moved with cursor := utf8Length moved.current }

/-- Handles a key, with the cursor as a byte. -/
def press? (e : LineEditor) : Key → Option Pressed
  | .enter => some e.enter
  | .char c =>
    if c = '\n' then some e.enter
    else if isControl c then some (.editing e)
    else (e.adopt.insert? c).map .editing
  | .backspace => e.adopt.backspace?.map .editing
  | .delete => e.adopt.delete?.map .editing
  | .left => some (.editing { e with cursor := e.cursor - 1 })
  | .right =>
    some (.editing
      (if e.cursor < utf8Length e.current then { e with cursor := e.cursor + 1 } else e))
  | .up => some (.editing (if 0 < e.focus then e.focusAt (e.focus - 1) else e))
  | .down => some (.editing (if e.focus < e.history.length then e.focusAt (e.focus + 1) else e))
  | .other => some (.editing e)

variable {e : LineEditor}

namespace Sound

/-- The texts of a sound editor are ASCII, so places in them can be counted in bytes. -/
theorem ascii (h : e.Sound) {line : List Char} (hline : line ∈ e.buffer :: e.history) :
    ∀ c ∈ line, c.toNat ≤ 127 := by
  intro c hc
  have hprintable : Printable c := by
    rcases List.mem_cons.mp hline with rfl | hline
    · exact h.buffer c hc
    · exact h.history line hline c hc
  exact Nat.le_succ_of_le hprintable.2

/-- Inserting does not fail. -/
theorem insert?_eq (h : e.Sound) (c : Char) : e.insert? c = some (e.insert c) := by
  have hascii := h.ascii List.mem_cons_self
  unfold insert? LineEditor.insert
  rw [utf8Length_of_ascii hascii]
  split
  · rename_i hcursor
    rw [insertAt?_of_ascii hascii hcursor.1]
    rfl
  · rfl

/-- Backspace does not fail. -/
theorem backspace?_eq (h : e.Sound) : e.backspace? = some e.backspace := by
  have hascii := h.ascii List.mem_cons_self
  unfold backspace? LineEditor.backspace
  rw [utf8Length_of_ascii hascii]
  split
  · rw [removeAt?_of_ascii hascii (by omega)]
    rfl
  · rfl

/-- Deleting does not fail. -/
theorem delete?_eq (h : e.Sound) : e.delete? = some e.delete := by
  have hascii := h.ascii List.mem_cons_self
  unfold delete? LineEditor.delete
  rw [utf8Length_of_ascii hascii]
  split
  · rename_i hcursor
    rw [removeAt?_of_ascii hascii hcursor]
    rfl
  · rfl

theorem utf8Length_current (h : e.Sound) : utf8Length e.current = e.current.length :=
  utf8Length_of_ascii fun c hc => Nat.le_succ_of_le (h.current c hc).2

/-- Showing a line of the history, or the text being typed, does not fail. -/
theorem focusAt_eq (h : e.Sound) {focus : Nat} (hfocus : focus ≤ e.history.length) :
    e.focusAt focus = e.focusOn focus := by
  have hmoved : ({ e with focus } : LineEditor).Sound := ⟨hfocus, h.buffer, h.history⟩
  simp only [focusAt, focusOn, hmoved.utf8Length_current]

/-- In order, no key fails, and it does the same by bytes as by characters. -/
theorem press?_eq (h : e.Sound) (key : Key) : e.press? key = some (e.press key) := by
  have hfocus := h.focus
  cases key with
  | char c =>
    rw [press?, LineEditor.press, h.adopt.insert?_eq]
    split
    · rfl
    · split <;> rfl
  | backspace => rw [press?, h.adopt.backspace?_eq]; rfl
  | delete => rw [press?, h.adopt.delete?_eq]; rfl
  | right => rw [press?, LineEditor.press, h.utf8Length_current]
  | up => rw [press?, LineEditor.press, h.focusAt_eq (by omega)]
  | down =>
    rw [press?, LineEditor.press]
    split
    · rw [h.focusAt_eq (by omega)]
    · rfl
  | enter | left | other => rfl

end Sound

/-! ## What every key keeps -/

/-- Texts are printable, the line that is shown exists, and of the lines entered before none is
blank and none is the same as the one before it. -/
structure Tidy (e : LineEditor) : Prop extends Sound e where
  visible : ∀ line ∈ e.history, allBlank line = false
  distinct : e.history.IsChain (· ≠ ·)

/-- Keys only read the lines entered before. -/
theorem history_press (e : LineEditor) (key : Key) :
    (e.press key).editor.history = e.history := by
  have hadopt := e.adopt_eq.2.2.1
  have heffect := effect_press e key
  generalize e.press key = pressed at heffect
  -- Only the line that is edited changes; what was adopted for it left the history alone.
  cases heffect with
  | enter => exact hadopt
  | insert =>
    rw [← hadopt]
    unfold insert
    split <;> rfl
  | backspace =>
    rw [← hadopt]
    unfold backspace
    split <;> rfl
  | delete =>
    rw [← hadopt]
    unfold delete
    split <;> rfl
  | _ => rfl

/-- A complete line is entered by the key for it. -/
theorem enter_of_entered {key : Key} {n : LineEditor} (h : e.press key = .entered n) :
    e.enter = .entered n := by
  cases key with
  | enter => exact h
  | char c =>
    rw [press] at h
    split at h
    · exact h
    · split at h <;> cases h
  | _ => cases h

namespace Tidy

/-- A fresh editor is tidy. -/
theorem new : LineEditor.new.Tidy where
  focus := Nat.le_refl _
  buffer := fun _ hc => absurd hc List.not_mem_nil
  history := fun _ hline => absurd hline List.not_mem_nil
  visible := fun _ hline => absurd hline List.not_mem_nil
  distinct := .nil

theorem newLine (h : e.Tidy) : e.newLine.Tidy := ⟨h.toSound.newLine, h.visible, h.distinct⟩

/-- No key makes an editor untidy. -/
theorem press (h : e.Tidy) (key : Key) : (e.press key).editor.Tidy := by
  have hhistory := e.history_press key
  refine ⟨h.toSound.press key, ?_, ?_⟩
  · rw [hhistory]
    exact h.visible
  · rw [hhistory]
    exact h.distinct

/-- A complete line is not blank: one typed would have been cleared, one shown again is not. -/
theorem visible_of_entered (h : e.Tidy) {key : Key} {n : LineEditor}
    (hpress : e.press key = .entered n) : allBlank n.buffer = false := by
  have henter := enter_of_entered hpress
  unfold enter at henter
  split at henter
  · cases henter
  · rename_i hkept
    cases henter
    rw [e.adopt_eq.1, current]
    cases hline : e.history[e.focus]? with
    | none =>
      have hfocus := List.getElem?_eq_none_iff.mp hline
      exact Bool.eq_false_iff.mpr fun hblank => hkept ⟨hfocus, hblank⟩
    | some line => exact h.visible line (List.mem_of_getElem? hline)

/-- A line is noted behind one that differs from it, or not at all. -/
theorem remember (h : e.Tidy) (hbuffer : allBlank e.buffer = false) : e.remember.Tidy := by
  have hhistory : e.remember.history =
      if e.history.getLast? = some e.buffer then e.history else e.history ++ [e.buffer] := rfl
  by_cases hlast : e.history.getLast? = some e.buffer
  · rw [if_pos hlast] at hhistory
    exact ⟨h.toSound.remember, hhistory ▸ h.visible, hhistory ▸ h.distinct⟩
  · rw [if_neg hlast] at hhistory
    refine ⟨h.toSound.remember, ?_, ?_⟩
    · intro line hline
      rw [hhistory] at hline
      rcases List.mem_append.mp hline with hline | hline
      · exact h.visible line hline
      · rwa [List.mem_singleton.mp hline]
    · rw [hhistory]
      refine List.isChain_append.mpr ⟨h.distinct, List.isChain_singleton _, ?_⟩
      rintro line hline _ ⟨⟩ rfl
      exact hlast hline

end Tidy

/-! ## Lines -/

/-- Reads keys until the line is complete, and leaves the other keys; none are left if the terminal
broke before that. -/
def line? (e : LineEditor) : List Key → Option (LineEditor × Option (List Key))
  | [] => some (e, none)
  | key :: keys =>
    match e.press? key with
    | none => none
    | some (.editing next) => next.line? keys
    | some (.cleared next) => next.line? keys
    | some (.entered next) => some (next.remember, some keys)

/-- The commands that are typed on a line and behind it. -/
def commands (e : LineEditor) (keys : List Key) : List (List Char) :=
  (e.typed [] keys).map Typed.command

/-- What was drawn of a line does not count. -/
theorem commands_eq (e : LineEditor) (frames : List String) (keys : List Key) :
    (e.typed frames keys).map Typed.command = e.commands keys := by
  unfold commands
  induction keys generalizing e frames with
  | nil => rfl
  | cons key keys ih =>
    rw [typed, typed]
    cases e.press key with
    | editing next => exact (ih ..).trans (ih ..).symm
    | cleared next => exact (ih ..).trans (ih ..).symm
    | entered next => simp only [List.map_append, command_typedLine]

/-- What is typed on a line: the keys do not fail, and the line is complete, or no command comes of
it. -/
theorem Tidy.line?_eq (h : e.Tidy) (keys : List Key) :
    (∃ after, e.line? keys = some (after, none) ∧ after.Tidy ∧ e.commands keys = []) ∨
    ∃ after rest, e.line? keys = some (after, some rest) ∧ after.Tidy ∧
      e.commands keys = Script.ofLine after.buffer ++ after.newLine.commands rest := by
  induction keys generalizing e with
  | nil => exact .inl ⟨e, rfl, h, rfl⟩
  | cons key keys ih =>
    have hpressed := h.press key
    rw [line?, h.press?_eq, commands, typed]
    -- Enter on a line that is not blank ends the reading, any other key goes on with it.
    cases hpress : e.press key with
    | editing next =>
      rw [hpress] at hpressed
      simp only [commands_eq]
      exact ih hpressed
    | cleared next =>
      rw [hpress] at hpressed
      simp only [commands_eq]
      exact ih hpressed
    | entered next =>
      rw [hpress] at hpressed
      refine .inr ⟨next.remember, keys, rfl, hpressed.remember (h.visible_of_entered hpress), ?_⟩
      simp only [List.map_append, command_typedLine]
      rfl

end LineEditor

/-! ## Sources -/

/-- Takes the first command of a queue and leaves the source with the others. -/
def takeFirst? {σ : Type} (leave : List (List Char) → σ) :
    List (List Char) → Option (σ × Option (List Char))
  | [] => none
  | command :: others => some (leave others, some command)

/-- A terminal. -/
structure Terminal where
  editor : LineEditor
  /-- The commands of the line that were not taken yet. -/
  pending : List (List Char)
  /-- The keys that will be typed until the terminal breaks. -/
  keys : List Key

namespace Terminal

/-- A terminal on which nothing was typed yet. -/
def new (keys : List Key) : Terminal := ⟨.new, [], keys⟩

/-- Reads a command, after a new line if none is pending. There is none if the terminal breaks. -/
def read? (t : Terminal) : Option (Terminal × Option (List Char)) :=
  if t.pending.isEmpty then
    match t.editor.newLine.line? t.keys with
    | none => none
    | some (editor, none) => some (⟨editor, [], []⟩, none)
    | some (editor, some keys) =>
      takeFirst? (fun pending => ⟨editor, pending, keys⟩) (Script.ofLine editor.buffer)
  else takeFirst? (fun pending => { t with pending }) t.pending

/-- The terminals to which reading leads, whatever is typed and wherever the terminal breaks: then
the editor is as the last key has left it. -/
inductive Reached : Terminal → Prop
  | new (keys : List Key) : Reached (new keys)
  | read {t after : Terminal} {command : Option (List Char)} :
      Reached t → t.read? = some (after, command) → Reached after
  | typing {t : Terminal} (keys : List Key) : Reached t → Reached { t with keys }
  | pressed {t : Terminal} {key : Key} {pressed : Pressed} :
      Reached t → t.editor.press? key = some pressed → Reached { t with editor := pressed.editor }

/-- The commands that are still to come. -/
def remaining (t : Terminal) : List (List Char) := t.pending ++ t.editor.newLine.commands t.keys

end Terminal

/-- Piped input. -/
structure Piped where
  /-- The lines in bytes that were not read yet. -/
  lines : List (List UInt8)
  /-- The commands of the line that were not taken yet. -/
  pending : List (List Char)

namespace Piped

/-- Input of which nothing was read yet. -/
def new (bytes : ByteArray) : Piped := ⟨Script.byteLines bytes.toList, []⟩

/-- Reads a command, after a new line if none is pending. There is none at the end of the input, or
if the line is not UTF-8. -/
def read? (s : Piped) : Option (Piped × Option (List Char)) :=
  if s.pending.isEmpty then
    match s.lines with
    | [] => some (s, none)
    | line :: lines =>
      match String.fromUTF8? (ByteArray.mk line.toArray) with
      | none => some (⟨lines, []⟩, none)
      | some text => takeFirst? (fun pending => ⟨lines, pending⟩) (Script.ofLine text.toList)
  else takeFirst? (fun pending => { s with pending }) s.pending

/-- The commands that are still to come. -/
def remaining (s : Piped) : List (List Char) := s.pending ++ Script.ofByteLines s.lines

end Piped

/-! ## Reading -/

/-- Reading a source gives the first of the commands that are to come and leaves the others, or
there are none to come. -/
def Gives {σ : Type} (remaining : σ → List (List Char)) (s after : σ) :
    Option (List Char) → Prop
  | none => remaining s = []
  | some command => remaining s = command :: remaining after

/-- The commands of so many readings, up to the first that gives none. -/
def readUpTo? {σ : Type} (read? : σ → Option (σ × Option (List Char))) :
    Nat → σ → Option (List (List Char))
  | 0, _ => some []
  | n + 1, s =>
    match read? s with
    | none => none
    | some (_, none) => some []
    | some (after, some command) => (readUpTo? read? n after).map (command :: ·)

/-- If no reading fails, any number of readings give the commands that are to come. -/
theorem readUpTo?_eq {σ : Type} {read? : σ → Option (σ × Option (List Char))}
    {remaining : σ → List (List Char)} {P : σ → Prop}
    (hread : ∀ s, P s → ∃ after command, read? s = some (after, command) ∧ P after ∧
      Gives remaining s after command)
    (n : Nat) {s : σ} (hs : P s) : readUpTo? read? n s = some ((remaining s).take n) := by
  induction n generalizing s with
  | zero => rfl
  | succ n ih =>
    obtain ⟨after, command, hafter, hkept, hgives⟩ := hread s hs
    rw [readUpTo?, hafter]
    cases command with
    | none => rw [show remaining s = [] from hgives, List.take_nil]
    | some command =>
      rw [show remaining s = command :: remaining after from hgives, List.take_succ_cons]
      dsimp only
      rw [ih hkept]
      rfl

/-- There is at least one command in a line, be it an empty one. -/
theorem Script.ofLine_ne_nil (line : List Char) : Script.ofLine line ≠ [] := separated_ne_nil _ _

/-- Of pending commands the first is taken and the others stay. -/
theorem takeFirst?_eq {σ : Type} (leave : List (List Char) → σ) {pending : List (List Char)}
    (h : pending ≠ []) :
    ∃ command others, pending = command :: others ∧
      takeFirst? leave pending = some (leave others, some command) := by
  obtain ⟨command, others, rfl⟩ := List.exists_cons_of_ne_nil h
  exact ⟨command, others, rfl, rfl⟩

namespace Terminal

variable {t : Terminal}

/-- Reading from a terminal in order does not fail and leaves it in order. -/
theorem read?_eq (h : t.editor.Tidy) :
    ∃ after command, t.read? = some (after, command) ∧ after.editor.Tidy ∧
      Gives remaining t after command := by
  by_cases hpending : t.pending = []
  · rw [read?, hpending, List.isEmpty_nil, if_pos rfl]
    rcases h.newLine.line?_eq t.keys with
      ⟨editor, hline, htidy, hcommands⟩ | ⟨editor, keys, hline, htidy, hcommands⟩
    · rw [hline]
      exact ⟨_, none, rfl, htidy, by rw [Gives, remaining, hpending, hcommands]; rfl⟩
    · -- The line has a command, so the queue is not empty when its first is taken.
      obtain ⟨command, others, hqueue, htake⟩ :=
        takeFirst?_eq (fun pending => Terminal.mk editor pending keys)
          (Script.ofLine_ne_nil editor.buffer)
      rw [hline]
      exact ⟨_, some command, htake, htidy,
        by rw [Gives, remaining, hpending, hcommands, hqueue]; rfl⟩
  · obtain ⟨command, others, hqueue, htake⟩ :=
      takeFirst?_eq (fun pending => { t with pending }) hpending
    rw [read?, if_neg (by simpa using hpending)]
    exact ⟨_, some command, htake, h, by rw [Gives, remaining, hqueue]; rfl⟩

/-- In every state that is reached the editor is tidy. -/
theorem Reached.tidy (h : t.Reached) : t.editor.Tidy := by
  induction h with
  | new keys => exact .new
  | read _ hread ih =>
    obtain ⟨after, command, hafter, htidy, -⟩ := read?_eq ih
    rw [hread] at hafter
    cases hafter
    exact htidy
  | typing keys _ ih => exact ih
  | pressed _ hpress ih =>
    rw [ih.toSound.press?_eq] at hpress
    cases hpress
    exact ih.press _

end Terminal

/-- Reading from piped input does not fail. -/
theorem Piped.read?_eq (s : Piped) :
    ∃ after command, s.read? = some (after, command) ∧ Gives remaining s after command := by
  by_cases hpending : s.pending = []
  · have hremaining : s.remaining = Script.ofByteLines s.lines := by
      rw [remaining, hpending, List.nil_append]
    rw [read?, hpending, List.isEmpty_nil, if_pos rfl]
    -- Nothing waits from the line before, so the next one is taken.
    cases hlines : s.lines with
    | nil => exact ⟨s, none, rfl, by rw [Gives, hremaining, hlines]; rfl⟩
    | cons line lines =>
      rw [hlines, Script.ofByteLines] at hremaining
      cases htext : String.fromUTF8? (ByteArray.mk line.toArray) with
      | none =>
        rw [htext] at hremaining
        simp only [htext]
        exact ⟨_, none, rfl, hremaining⟩
      | some text =>
        obtain ⟨command, others, hqueue, htake⟩ :=
          takeFirst?_eq (fun pending => Piped.mk lines pending)
            (Script.ofLine_ne_nil text.toList)
        simp only [htext, hqueue] at hremaining
        simp only [htext]
        exact ⟨_, some command, htake, hremaining⟩
  · -- What is left of the line before comes first.
    obtain ⟨command, others, hqueue, htake⟩ :=
      takeFirst?_eq (fun pending => { s with pending }) hpending
    rw [read?, if_neg (by simpa using hpending)]
    exact ⟨_, some command, htake, by rw [Gives, remaining, hqueue]; rfl⟩

/-- In every terminal to which reading leads, all texts are printable, so every byte is the start of
a character; no line entered before is blank, and none is the same as the one before it; the line
that is shown exists. So no key puts a character in or takes one out where it cannot, and no reading
of a terminal or of piped input takes a command from an empty queue. The commands that are read,
however many, are those that were typed or piped. -/
theorem safe_of_reads :
    (∀ t : Terminal, t.Reached →
      t.editor.Tidy ∧
      (∀ line ∈ t.editor.buffer :: t.editor.history, ∀ n ≤ utf8Length line, IsBoundary line n) ∧
      (∀ key, t.editor.press? key = some (t.editor.press key)) ∧
      ∃ after command, t.read? = some (after, command)) ∧
    (∀ s : Piped, ∃ after command, s.read? = some (after, command)) ∧
    (∀ keys n, readUpTo? Terminal.read? n (.new keys) =
      some (((Script.ofKeys keys).map LineEditor.Typed.command).take n)) ∧
    ∀ bytes n, readUpTo? Piped.read? n (.new bytes) = some ((Script.ofInput bytes).take n) := by
  refine ⟨fun t ht => ?_, fun s => ?_, fun keys n => ?_, fun bytes n => ?_⟩
  · have htidy := ht.tidy
    obtain ⟨after, command, hread, -⟩ := Terminal.read?_eq htidy
    exact ⟨htidy, fun line hline n => isBoundary_of_ascii (htidy.toSound.ascii hline),
      htidy.toSound.press?_eq, after, command, hread⟩
  · obtain ⟨after, command, hread, -⟩ := s.read?_eq
    exact ⟨after, command, hread⟩
  · exact readUpTo?_eq (fun t ht => Terminal.read?_eq ht) n (s := Terminal.new keys) .new
  · have hread : ∀ s : Piped, True → ∃ after command, s.read? = some (after, command) ∧ True ∧
        Gives Piped.remaining s after command := by
      intro s _
      obtain ⟨after, command, hread, hgives⟩ := s.read?_eq
      exact ⟨after, command, hread, trivial, hgives⟩
    exact readUpTo?_eq hread n trivial

/-- Two commands on a line, which is then shown again. The terminal breaks there with the cursor at
the end of the line, where backspace changes a copy of it. -/
theorem safe_of_reads_shown :
    let shown : LineEditor := ⟨[], 2, [[';', 's']], 0⟩
    (∃ t : Terminal, t.Reached ∧ t.editor = shown ∧ t.editor.Tidy ∧
      (∀ line ∈ t.editor.buffer :: t.editor.history, ∀ n ≤ utf8Length line, IsBoundary line n)) ∧
    shown.press? .backspace = some (.editing ⟨[';'], 1, [[';', 's']], 1⟩) ∧
    readUpTo? Terminal.read? 5 (.new [.char ';', .char 's', .enter, .up]) = some [[], ['s']] := by
  intro shown
  obtain ⟨hterminal, -, htyped, -⟩ := safe_of_reads
  have hreached : Terminal.Reached ⟨shown, [], []⟩ :=
    .read (.read (.read (.new [.char ';', .char 's', .enter, .up]) rfl) rfl) rfl
  obtain ⟨htidy, hboundary, hpress, -⟩ := hterminal _ hreached
  exact ⟨⟨_, hreached, rfl, htidy, hboundary⟩, hpress .backspace, htyped _ 5⟩

end Teach6809
