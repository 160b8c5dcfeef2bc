import Teach6809.Register

/-!
# The console

Text is shown on two streams: results on the standard output, the talk of the debugger on the
standard error. A *plain* console (minimal output) removes escape sequences and leaves out what is
said only sometimes. Otherwise the talk of the debugger is blue, where colour is on.

The console remembers whether it is at the start of a line: it is, if the last visible character
that was shown is a line feed, or none was shown yet.
-/

namespace Teach6809

/-! ## Escape sequences -/

/-- The character that starts an escape sequence. -/
def escape : Char := '\x1b'

/-- The sequence that ends every style. -/
def resetSequence : List Char := [escape, '[', '0', 'm']

mutual

/-- A text without its escape sequences. A sequence goes from an escape character to the next `m`,
or to the end of the text. -/
def decolor : List Char → List Char
  | [] => []
  | c :: rest => if c = escape then skipSequence rest else c :: decolor rest

/-- The visible rest of a text that starts inside an escape sequence. -/
def skipSequence : List Char → List Char
  | [] => []
  | c :: rest => if c = 'm' then decolor rest else skipSequence rest

end

/-- Ways to set off a piece of text. -/
inductive Style where
  | bold | dimmed | red | green | blue | cyan
deriving DecidableEq

/-- The number of a style in its escape sequence. -/
def Style.number : Style → String
  | bold => "1" | dimmed => "2" | red => "31" | green => "32" | blue => "34" | cyan => "36"

/-- The sequence that starts a style. -/
def Style.opening (s : Style) : List Char := [escape, '['] ++ s.number.toList ++ ['m']

/-- A text in which a style is started again wherever all styles end. -/
def reopen (opening : List Char) : List Char → List Char
  | '\x1b' :: '[' :: '0' :: 'm' :: rest => resetSequence ++ opening ++ reopen opening rest
  | c :: rest => c :: reopen opening rest
  | [] => []

/-- A text in a style, if colour is on. -/
def paint (color : Bool) (style : Style) (text : String) : String :=
  if color then
    String.ofList (style.opening ++ reopen style.opening text.toList ++ resetSequence)
  else text

/-! ## Streams and channels -/

/-- Where text ends up. -/
inductive Stream where
  | standardOutput
  | standardError
deriving DecidableEq

/-- What a text is for. -/
inductive Channel where
  /-- The results of a program. -/
  | normal
  /-- What the debugger always says. -/
  | always
  /-- What the debugger says unless the console is plain. -/
  | sometimes
deriving DecidableEq

/-- The stream of a channel. -/
def Channel.stream : Channel → Stream
  | normal => .standardOutput
  | always | sometimes => .standardError

/-! ## The console -/

/-- A console and what was shown on it. -/
structure Console where
  /-- Whether output is minimal. -/
  plain : Bool
  color : Bool
  atLineStart : Bool
  /-- The texts shown, latest first, each with its stream. -/
  shown : List (Stream × String)

namespace Console

/-- A console on which nothing was shown yet. -/
def new (plain color : Bool) : Console := ⟨plain, color, true, []⟩

/-- Shows a text as it is, without looking at it. -/
def emit (c : Console) (stream : Stream) (text : String) : Console :=
  { c with shown := (stream, text) :: c.shown }

/-- Notes the last visible character of a text. -/
def track (c : Console) (text : String) : Console :=
  match (decolor text.toList).getLast? with
  | some last => { c with atLineStart := last == '\n' }
  | none => c

/-- A text as a channel shows it. -/
def dress (c : Console) (channel : Channel) (text : String) : String :=
  if c.plain then String.ofList (decolor text.toList)
  else
    match channel with
    | .normal => text
    | .always | .sometimes => paint c.color .blue text

/-- Shows a text on a channel. -/
def print (c : Console) (channel : Channel) (text : String) : Console :=
  if c.plain ∧ channel = .sometimes then c
  else (c.emit channel.stream (c.dress channel text)).track text

/-- Shows a text and a line feed on a channel. -/
def printLine (c : Console) (channel : Channel) (text : String) : Console :=
  c.print channel (text ++ "\n")

/-- Shows texts one after another. -/
def printAll (c : Console) (channel : Channel) (texts : List String) : Console :=
  texts.foldl (fun c text => c.print channel text) c

/-- Goes to the start of a line. -/
def startNewLine (c : Console) (channel : Channel) : Console :=
  if c.atLineStart then c else c.print channel "\n"

/-- Everything shown on a stream. -/
def textOn (c : Console) (stream : Stream) : String :=
  String.join ((c.shown.reverse.filter fun entry => entry.1 == stream).map fun entry => entry.2)

end Console
end Teach6809
