import Teach6809.Debugger.Session
import Teach6809.Proofs.Debugger.LineEditor
import Teach6809.Proofs.Text.Bytes
import Teach6809.Proofs.Text.Pieces

/-!
# Commands from different sources

An argument, piped input and a terminal cut the same text into commands in different ways. The
pieces are not the same: there may be an empty one more or less, and carriage returns may be left at
the end of a line. But a session passes over blank commands and takes the others without the white
space around them (`Session.accept_eq`), and what it gets that way is the same from every source.
Main statement: `delivered_of_sources`.
-/

namespace Teach6809

open Text

/-- A session only shows a blank command, and of any other only the trimmed text counts. -/
theorem Session.accept_eq (s : Session) (command : List Char) :
    s.accept command = if allBlank command then s.echo command else s.accept (trim command) := by
  have hecho : s.echo (trim command) = s.echo command := by rw [echo, echo, trim_trim]
  have hread : Command.read (trim command) = Command.read command := by
    rw [Command.read, Command.read, trim_trim]
  by_cases hblank : allBlank command = true
  · rw [accept, if_pos hblank, if_pos hblank]
  · rw [if_neg hblank, accept, accept, allBlank_trim, hecho, hread]

namespace Script

/-! ## Commands that count -/

/-- The commands of a source that a session takes: blank ones are passed over, and white space
around the others does not count. -/
def delivered : List (List Char) → List (List Char)
  | [] => []
  | command :: rest =>
    if allBlank command then delivered rest else trim command :: delivered rest

/-- What is delivered is found by leaving out and trimming. -/
theorem delivered_eq (commands : List (List Char)) :
    delivered commands = (commands.filter (!allBlank ·)).map trim := by
  induction commands with
  | nil => rfl
  | cons command rest ih =>
    rw [delivered, List.filter_cons, ih]
    cases allBlank command <;> rfl

/-- What is delivered of two lots of commands is delivered of each. -/
theorem delivered_append (commands others : List (List Char)) :
    delivered (commands ++ others) = delivered commands ++ delivered others := by
  induction commands with
  | nil => rfl
  | cons command rest ih =>
    rw [List.cons_append, delivered, delivered, ih]
    split <;> rfl

theorem delivered_flatMap {α : Type} (pieces : List α) (cut : α → List (List Char)) :
    delivered (pieces.flatMap cut) = pieces.flatMap fun piece => delivered (cut piece) := by
  induction pieces with
  | nil => rfl
  | cons piece pieces ih => rw [List.flatMap_cons, List.flatMap_cons, delivered_append, ih]

/-- White space behind a command does not count. -/
theorem delivered_append_blank {after : List Char} (hafter : allBlank after = true)
    (command : List Char) : delivered [command ++ after] = delivered [command] := by
  have hblank : allBlank (command ++ after) = allBlank command := by
    rw [Bool.eq_iff_iff, allBlank_append, and_iff_left hafter]
  rw [delivered, hblank, trim_append_blank hafter]
  rfl

/-- An empty command at the end does not count, so terminators are as good as separators. -/
theorem delivered_terminated (isMark : Char → Bool) (text : List Char) :
    delivered (terminated isMark text) = delivered (separated isMark text) := by
  rcases separated_eq_terminated_or isMark text with h | h
  · rw [h]
  · rw [h, delivered_append]
    exact (List.append_nil _).symm

/-- White space at the end of a text does not count, if it is not cut there. -/
theorem delivered_separated_append {isMark : Char → Bool} {after : List Char}
    (hafter : allBlank after = true) (hmark : ∀ c ∈ after, isMark c = false) (text : List Char) :
    delivered (separated isMark (text ++ after)) = delivered (separated isMark text) := by
  obtain ⟨front, last, hcut⟩ := exists_separated_append isMark text
  have htext := hcut [] fun c hc => absurd hc List.not_mem_nil
  rw [List.append_nil, List.append_nil] at htext
  rw [hcut after hmark, htext, delivered_append, delivered_append, delivered_append_blank hafter]

/-! ## Lines -/

/-- The commands of a line, whether or not it still has its terminator. -/
theorem delivered_ofLine (line : List Char) :
    delivered (ofLine line) = delivered (separated (· == ';') line) := by
  obtain ⟨after, hafter, hsplit⟩ := exists_dropEndWhile (fun c => c == '\n' || c == '\r') line
  have hreturn : ∀ c ∈ after, c = '\n' ∨ c = '\r' := by
    intro c hc
    simpa using hafter c hc
  conv => rhs; rw [hsplit]
  rw [ofLine]
  refine (delivered_separated_append ?_ ?_ _).symm
  · rw [allBlank_iff]
    intro c hc
    rcases hreturn c hc with rfl | rfl <;> rfl
  · intro c hc
    rcases hreturn c hc with rfl | rfl <;> rfl

/-- The commands of an argument are those of its lines. -/
theorem delivered_ofArgument (text : List Char) :
    delivered (ofArgument text) =
      (separated (· == '\n') text).flatMap fun line => delivered (ofLine line) := by
  rw [ofArgument, delivered_terminated, separated_or, delivered_flatMap]
  exact congrArg (separated (· == '\n') text).flatMap
    (funext fun line => (delivered_ofLine line).symm)

/-! ## Piped input -/

/-- Bytes without a line feed belong to the line that goes on behind them. -/
theorem byteLines_append {front : List UInt8} (hne : front ≠ []) (h : (0x0A : UInt8) ∉ front)
    (rest : List UInt8) :
    byteLines (front ++ rest) =
      match byteLines rest with
      | [] => [front]
      | line :: lines => (front ++ line) :: lines := by
  induction front with
  | nil => exact absurd rfl hne
  | cons b front ih =>
    rw [List.mem_cons, not_or] at h
    rw [List.cons_append, byteLines, if_neg (Ne.symm h.1)]
    cases front with
    | nil => rfl
    | cons b' front =>
      rw [ih (List.cons_ne_nil _ _) h.2]
      cases byteLines rest <;> rfl

/-- The lines of a text in bytes are the lines of the text. -/
theorem byteLines_encode (text : List Char) :
    byteLines (encode text) = (terminated (· == '\n') text).map encode := by
  induction text with
  | nil => rfl
  | cons c rest ih =>
    rw [encode, List.flatMap_cons, ← encode, terminated]
    by_cases hc : c = '\n'
    · rw [hc, if_pos (by decide), List.map_cons, ← ih]
      rfl
    · rw [byteLines_append String.utf8EncodeChar_ne_nil (lineFeed_not_mem_utf8EncodeChar hc), ih,
        if_neg (by simpa using hc)]
      cases terminated (· == '\n') rest with
      | nil => simp [encode]
      | cons piece pieces => simp [encode]

/-- What is read from a text in bytes. -/
theorem ofInput_toUTF8 (text : String) :
    ofInput text.toUTF8 = (terminated (· == '\n') text.toList).flatMap ofLine := by
  rw [ofInput, toList_toUTF8, byteLines_encode]
  generalize terminated (· == '\n') text.toList = lines
  induction lines with
  | nil => rfl
  | cons line lines ih =>
    rw [List.map_cons, ofByteLines, fromUTF8?_encode, ih, List.flatMap_cons]
    dsimp only
    rw [String.toList_ofList]

/-- Piped input is cut as an argument of the same text is. -/
theorem delivered_ofInput (text : String) :
    delivered (ofInput text.toUTF8) = delivered (ofArgument text.toList) := by
  rw [ofInput_toUTF8, delivered_flatMap, delivered_ofArgument]
  -- One more line would be empty, and has no commands that count.
  rcases separated_eq_terminated_or (· == '\n') text.toList with h | h
  · rw [h]
  · rw [h, List.flatMap_append]
    exact (List.append_nil _).symm

end Script

/-! ## Terminals -/

namespace LineEditor

variable {history : List (List Char)}

/-- The keys that type a line and enter it. -/
def keysOf (line : List Char) : List Key := line.map .char ++ [.enter]

/-- An editor with a new line that was typed as far as this. -/
def typing (history : List (List Char)) (line : List Char) : LineEditor :=
  ⟨line, line.length, history, history.length⟩

/-- While a line is typed there is nothing to adopt. -/
theorem adopt_typing (line : List Char) : (typing history line).adopt = typing history line := by
  rw [adopt, typing]
  simp

/-- A printable character goes to the end of the line that is typed. -/
theorem press_char {c : Char} (hc : Printable c) (line : List Char) :
    (typing history line).press (.char c) = .editing (typing history (line ++ [c])) := by
  rw [press_printable hc, adopt_typing, insert_eq (Nat.le_refl _) hc]
  simp [typing]

/-- A line that is not blank is entered. -/
theorem press_enter {line : List Char} (hline : allBlank line = false) :
    (typing history line).press .enter = .entered (typing history line) := by
  have hblank : ¬ (history.length ≤ (typing history line).focus ∧ allBlank line = true) := by
    rw [hline]
    exact fun h => Bool.false_ne_true h.2
  rw [press, enter, adopt_typing]
  exact if_neg hblank

/-- Printable characters are put where they were typed. -/
theorem typed_chars {text : List Char} (htext : ∀ c ∈ text, Printable c)
    (history : List (List Char)) (line : List Char) (frames : List String) (keys : List Key) :
    ∃ drawn, (typing history line).typed frames (text.map .char ++ keys) =
      (typing history (line ++ text)).typed drawn keys := by
  induction text generalizing line frames with
  | nil => exact ⟨frames, by rw [List.map_nil, List.nil_append, List.append_nil]⟩
  | cons c text ih =>
    obtain ⟨drawn, hdrawn⟩ := ih (fun d hd => htext d (List.mem_cons_of_mem c hd)) (line ++ [c])
      ((typing history line).prompt :: frames)
    refine ⟨drawn, ?_⟩
    rw [List.map_cons, List.cons_append, typed, press_char (htext c List.mem_cons_self)]
    dsimp only
    rw [hdrawn, List.append_assoc, List.singleton_append]

/-- An entered line is cut at its semicolons. -/
theorem command_typedLine (frames : List String) (line : List Char) :
    (typedLine frames line).map Typed.command = Script.ofLine line := by
  unfold typedLine
  cases Script.ofLine line with
  | nil => rfl
  | cons first rest => simp [Function.comp_def]

/-- A line that is typed and entered is taken as it was typed, and then there is a new line. -/
theorem typed_line {line : List Char} (hprintable : ∀ c ∈ line, Printable c)
    (hline : allBlank line = false) (history : List (List Char)) (keys : List Key) :
    ∃ later, ((typing history []).typed [] (keysOf line ++ keys)).map Typed.command =
      Script.ofLine line ++ ((typing later []).typed [] keys).map Typed.command := by
  -- The characters first; then the key that enters the line starts a new one.
  obtain ⟨drawn, hdrawn⟩ := typed_chars hprintable history [] [] (.enter :: keys)
  refine ⟨(typing history line).remember.history, ?_⟩
  rw [keysOf, List.append_assoc, List.singleton_append, hdrawn, List.nil_append, typed,
    press_enter hline]
  dsimp only
  rw [List.map_append, command_typedLine]
  rfl

/-- Lines that are typed one after the other are taken one after the other. -/
theorem typed_lines {lines : List (List Char)}
    (h : ∀ line ∈ lines, (∀ c ∈ line, Printable c) ∧ allBlank line = false)
    (history : List (List Char)) :
    ((typing history []).typed [] (lines.flatMap keysOf)).map Typed.command =
      lines.flatMap Script.ofLine := by
  induction lines generalizing history with
  | nil => rfl
  | cons line lines ih =>
    obtain ⟨hprintable, hline⟩ := h line List.mem_cons_self
    obtain ⟨later, hlater⟩ := typed_line hprintable hline history (lines.flatMap keysOf)
    rw [List.flatMap_cons, hlater, ih (fun other hother => h other (List.mem_cons_of_mem _ hother)),
      List.flatMap_cons]

end LineEditor

namespace Script

/-- Entered lines and an argument of these lines have the same commands that count. -/
theorem delivered_ofKeys {lines : List (List Char)}
    (h : ∀ line ∈ lines, (∀ c ∈ line, Printable c) ∧ allBlank line = false) :
    delivered ((ofKeys (lines.flatMap LineEditor.keysOf)).map LineEditor.Typed.command) =
      delivered (ofArgument (['\n'].intercalate lines)) := by
  have hkeys : (ofKeys (lines.flatMap LineEditor.keysOf)).map LineEditor.Typed.command =
      lines.flatMap ofLine := LineEditor.typed_lines h []
  -- What is left is that the joined lines are cut where they were joined.
  rw [hkeys, delivered_flatMap, delivered_ofArgument]
  by_cases hlines : lines = []
  · rw [hlines]
    rfl
  · have hfeed : ∀ line ∈ lines, '\n' ∉ line := by
      intro line hline hmem
      exact absurd ((h line hline).1 '\n' hmem).1 (by decide)
    have hcut : separated (· == '\n') (['\n'].intercalate lines) = lines := by
      rw [separated_eq_splitOnP]
      exact List.splitOn_intercalate '\n' hfeed hlines
    rw [hcut]

/-- Every source delivers the same commands, without the white space around them: those between
the line feeds and semicolons of the text that are not blank. An argument and piped input can be any
text; what is typed is lines of printable ASCII, none of them blank. To a session it makes no
difference what is left out of a command that way: it only shows a blank one. -/
theorem delivered_of_sources :
    (∀ text : String,
      delivered (ofArgument text.toList) =
        ((text.toList.splitOnP fun c => c == '\n' || c == ';').filter (!allBlank ·)).map trim ∧
      delivered (ofInput text.toUTF8) = delivered (ofArgument text.toList)) ∧
    (∀ lines : List (List Char),
      (∀ line ∈ lines, (∀ c ∈ line, Printable c) ∧ ∃ c ∈ line, c ≠ ' ') →
      delivered ((ofKeys (lines.flatMap LineEditor.keysOf)).map LineEditor.Typed.command) =
        delivered (ofArgument (['\n'].intercalate lines))) ∧
    ∀ (s : Session) (command : List Char),
      s.accept command = if allBlank command then s.echo command else s.accept (trim command) := by
  refine ⟨fun text => ⟨?_, delivered_ofInput text⟩, fun lines hlines => delivered_ofKeys ?_,
    Session.accept_eq⟩
  · rw [ofArgument, delivered_terminated, separated_eq_splitOnP, delivered_eq]
  · intro line hline
    obtain ⟨hprintable, c, hc, hspace⟩ := hlines line hline
    refine ⟨hprintable, ?_⟩
    obtain ⟨hlow, hhigh⟩ := hprintable c hc
    have hcode : c.toNat ≠ 0x20 := fun hcode => hspace (Char.toNat_inj.mp hcode)
    rw [Bool.eq_false_iff, Ne, allBlank_iff]
    intro hblank
    have hvisible := isBlank_of_visible (c := c) (by omega) hhigh
    rw [hblank c hc] at hvisible
    cases hvisible

/-- Empty commands, carriage returns and spaces; the same two commands as an argument, piped and
typed. -/
theorem delivered_of_sources_empty :
    let text := ";step 2 ;;\x0D\n\x0D\n quit;\x0D\n"
    let lines := [";step 2 ;;".toList, " quit;".toList]
    delivered (ofArgument text.toList) = ["step 2".toList, "quit".toList] ∧
      delivered (ofInput text.toUTF8) = delivered (ofArgument text.toList) ∧
      (∀ line ∈ lines, (∀ c ∈ line, Printable c) ∧ ∃ c ∈ line, c ≠ ' ') ∧
      delivered ((ofKeys (lines.flatMap LineEditor.keysOf)).map LineEditor.Typed.command) =
        delivered (ofArgument ";step 2 ;;\n quit;".toList) := by
  intro text lines
  obtain ⟨htext, hkeys, -⟩ := delivered_of_sources
  have hall : lines.all (fun line => line.all fun c => decide (Printable c)) = true := by
    decide +kernel
  have hlines : ∀ line ∈ lines, (∀ c ∈ line, Printable c) ∧ ∃ c ∈ line, c ≠ ' ' := by
    intro line hline
    refine ⟨fun c hc => ?_, ?_⟩
    · exact of_decide_eq_true (List.all_eq_true.mp (List.all_eq_true.mp hall line hline) c hc)
    · simp only [lines, List.mem_cons, List.not_mem_nil, or_false] at hline
      rcases hline with rfl | rfl
      · exact ⟨'s', by decide +kernel⟩
      · exact ⟨'q', by decide +kernel⟩
  exact ⟨by decide +kernel, (htext text).2, hlines, hkeys lines hlines⟩

end Script
end Teach6809
