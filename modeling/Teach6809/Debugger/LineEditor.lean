import Teach6809.Debugger.Script

/-!
# The line editor

Commands typed on a terminal. The editor holds the text being typed, the lines entered before and
the column of the cursor. Going back to an earlier line shows it; the first change makes a copy of
it the text being typed. Only printable ASCII is taken, so columns and bytes are the same.

Entering a blank text clears it and leaves the cursor where it is; what is typed beyond the end of
the text is lost.
-/

namespace Teach6809

/-- Keys of a terminal. -/
inductive Key where
  | enter | backspace | delete | up | down | left | right
  /-- A key without a use here. -/
  | other
  | char (c : Char)
deriving DecidableEq

/-- A line being edited. -/
structure LineEditor where
  buffer : List Char
  /-- The column of the cursor. -/
  cursor : Nat
  /-- The lines entered before, oldest first. -/
  history : List (List Char)
  /-- The line of the history that is shown; the text being typed, if there is no such line. -/
  focus : Nat
deriving DecidableEq

/-- What a key leads to. -/
inductive Pressed where
  /-- The line is still being edited. -/
  | editing (editor : LineEditor)
  /-- A blank text was entered, and cleared. -/
  | cleared (editor : LineEditor)
  /-- The line is complete. -/
  | entered (editor : LineEditor)
deriving DecidableEq

namespace LineEditor

/-- An editor in which nothing was typed yet. -/
def new : LineEditor := ⟨[], 0, [], 0⟩

/-- The text that is shown. -/
def current (e : LineEditor) : List Char := (e.history[e.focus]?).getD e.buffer

/-- Makes the text that is shown the text being typed. -/
def adopt (e : LineEditor) : LineEditor :=
  match e.history[e.focus]? with
  | some line => { e with buffer := line, focus := e.history.length }
  | none => e

/-- Starts a new line. -/
def newLine (e : LineEditor) : LineEditor := { e with buffer := [], cursor := 0 }

/-- Puts a character at the cursor, if the cursor is in the text and the character is ASCII. -/
def insert (e : LineEditor) (c : Char) : LineEditor :=
  if e.cursor ≤ e.buffer.length ∧ c.toNat < 128 then
    { e with buffer := e.buffer.take e.cursor ++ c :: e.buffer.drop e.cursor
             cursor := e.cursor + 1 }
  else e

/-- Takes out the character before the cursor. -/
def backspace (e : LineEditor) : LineEditor :=
  if 0 < e.cursor ∧ e.cursor ≤ e.buffer.length then
    { e with buffer := e.buffer.eraseIdx (e.cursor - 1), cursor := e.cursor - 1 }
  else e

/-- Takes out the character at the cursor. -/
def delete (e : LineEditor) : LineEditor :=
  if e.cursor < e.buffer.length then { e with buffer := e.buffer.eraseIdx e.cursor } else e

/-- Shows another line, with the cursor at its end. -/
def focusOn (e : LineEditor) (focus : Nat) : LineEditor :=
  let moved := { e with focus }
  { moved with cursor := moved.current.length }

/-- Whether a character is an ASCII control character. -/
def isControl (c : Char) : Bool := c.toNat < 0x20 || c.toNat == 0x7F

/-- Handles the key that enters a line. -/
def enter (e : LineEditor) : Pressed :=
  if e.history.length ≤ e.focus ∧ Text.allBlank e.buffer then .cleared { e with buffer := [] }
  else .entered e.adopt

/-- Handles a key. -/
def press (e : LineEditor) : Key → Pressed
  | .enter => e.enter
  | .char c =>
    if c = '\n' then e.enter
    else if isControl c then .editing e
    else .editing (e.adopt.insert c)
  | .backspace => .editing e.adopt.backspace
  | .delete => .editing e.adopt.delete
  | .left => .editing { e with cursor := e.cursor - 1 }
  | .right =>
    .editing (if e.cursor < e.current.length then { e with cursor := e.cursor + 1 } else e)
  | .up => .editing (if 0 < e.focus then e.focusOn (e.focus - 1) else e)
  | .down => .editing (if e.focus < e.history.length then e.focusOn (e.focus + 1) else e)
  | .other => .editing e

/-- Notes a complete line in the history, unless the line before was the same. -/
def remember (e : LineEditor) : LineEditor :=
  let history :=
    if e.history.getLast? = some e.buffer then e.history else e.history ++ [e.buffer]
  { e with history, focus := history.length }

/-! ## Drawing -/

/-- The sequence that moves the cursor of the terminal to the left. -/
def moveLeft (columns : Nat) : String :=
  if columns = 0 then "" else "\x1b[" ++ toString columns ++ "D"

/-- The prompt with the text that is shown and the cursor in its column. -/
def prompt (e : LineEditor) : String :=
  "\x1b[1;34mCommand: \x1b[0m" ++ String.ofList e.current ++ moveLeft (e.current.length - e.cursor)

/-! ## Sessions -/

/-- A command, and what was drawn until it was there. -/
structure Typed where
  command : List Char
  /-- The prompts drawn, each with what follows it up to the next. -/
  frames : List String

/-- The commands of a line, of which the first takes the frames. -/
def typedLine (frames : List String) (line : List Char) : List Typed :=
  match Script.ofLine line with
  | [] => []
  | first :: rest => ⟨first, frames⟩ :: rest.map fun command => ⟨command, []⟩

/-- The commands that keys amount to; keys after the last complete line amount to none. `frames`
are those of the line being typed, latest first. -/
def typed (e : LineEditor) (frames : List String) : List Key → List Typed
  | [] => []
  | key :: keys =>
    match e.press key with
    | .editing next => next.typed (e.prompt :: frames) keys
    | .cleared next => next.typed ((e.prompt ++ "\n") :: frames) keys
    | .entered next =>
      let noted := next.remember
      typedLine (((e.prompt ++ "\n") :: frames).reverse) noted.buffer ++ noted.newLine.typed [] keys

end LineEditor

/-- The commands typed on a fresh terminal. -/
def Script.ofKeys (keys : List Key) : List LineEditor.Typed := LineEditor.new.typed [] keys

end Teach6809
