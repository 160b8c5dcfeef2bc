import Teach6809.Proofs.Console.Plain

/-!
# The start of a line

Both streams share one switch that says whether the console is at the start of a line. It follows
what was really written: after any calls it is on if and only if nothing visible was written yet or
the last visible character is a line feed (`Console.Tracks`). Output may be minimal or not for each
call; what minimal output leaves out does not count, and neither does a text of escape sequences.
Main statement: `line_start_of_calls`.
-/

namespace Teach6809
namespace Console

variable {c : Console}

/-! ## What was written -/

/-- Everything visible that was written on either stream, in the order in which it was written. -/
def visible (c : Console) : List Char :=
  c.shown.reverse.flatMap fun entry => decolor entry.2.toList

theorem visible_of_shown {after : Console} {stream : Stream} {text : String}
    (h : after.shown = (stream, text) :: c.shown) :
    after.visible = c.visible ++ decolor text.toList := by
  rw [visible, h, List.reverse_cons, List.flatMap_append, List.flatMap_singleton, visible]

/-- A text is left out if output is minimal and the channel is for what is said only sometimes. -/
def LeavesOut (plain : Bool) (channel : Channel) : Prop := plain = true ∧ channel = .sometimes

theorem print_of_leavesOut {channel : Channel} (h : LeavesOut c.plain channel) (text : String) :
    c.print channel text = c := if_pos h

theorem print_of_not_leavesOut {channel : Channel} (h : ¬ LeavesOut c.plain channel)
    (text : String) :
    c.print channel text = (c.emit channel.stream (c.dress channel text)).track text := if_neg h

/-- What is not left out is written once. -/
theorem shown_print_of_not_leavesOut {channel : Channel} (h : ¬ LeavesOut c.plain channel)
    (text : String) :
    (c.print channel text).shown = (channel.stream, c.dress channel text) :: c.shown := by
  rw [print_of_not_leavesOut h, shown_track]
  rfl

/-- The switch follows the last visible character of a text, and stays if there is none. -/
theorem atLineStart_print_of_not_leavesOut {channel : Channel} (h : ¬ LeavesOut c.plain channel)
    (text : String) :
    (c.print channel text).atLineStart =
      match (decolor text.toList).getLast? with
      | some last => last == '\n'
      | none => c.atLineStart := by
  rw [print_of_not_leavesOut h, track]
  cases (decolor text.toList).getLast? <;> rfl

/-! ## The switch -/

/-- The switch is on exactly if nothing visible was written, or a line feed last. -/
def Tracks (c : Console) : Prop :=
  c.atLineStart = true ↔ c.visible = [] ∨ c.visible.getLast? = some '\n'

theorem tracks_new (plain color : Bool) : (new plain color).Tracks :=
  iff_of_true rfl (.inl rfl)

theorem Tracks.print (hc : c.Tracks) (channel : Channel) (text : String) :
    (c.print channel text).Tracks := by
  by_cases hout : LeavesOut c.plain channel
  · rwa [print_of_leavesOut hout]
  · have hvisible := visible_of_shown (shown_print_of_not_leavesOut hout text)
    rw [decolor_dress] at hvisible
    rw [Tracks, atLineStart_print_of_not_leavesOut hout, hvisible]
    -- A text without a visible character changes neither side; otherwise both look at its last one.
    cases hlast : (decolor text.toList).getLast? with
    | none =>
      rw [List.getLast?_eq_none_iff.mp hlast, List.append_nil]
      exact hc
    | some last =>
      have hne : c.visible ++ decolor text.toList ≠ [] := by
        intro hnil
        rw [(List.append_eq_nil_iff.mp hnil).2] at hlast
        cases hlast
      rw [List.getLast?_append, hlast, or_iff_right hne]
      simp

/-- A call for which output is minimal, or is not. -/
def performIn (c : Console) (entry : Bool × Call) : Console :=
  { c with plain := entry.1 }.perform entry.2

/-- Calls one after another, each with minimal output or without. -/
def performEach (c : Console) (entries : List (Bool × Call)) : Console := entries.foldl performIn c

theorem Tracks.performIn (hc : c.Tracks) (entry : Bool × Call) : (c.performIn entry).Tracks := by
  have hmade : ({ c with plain := entry.1 } : Console).Tracks := hc
  exact perform_of_print (fun _ channel text h => h.print channel text) hmade entry.2

theorem Tracks.performEach (hc : c.Tracks) (entries : List (Bool × Call)) :
    (c.performEach entries).Tracks := by
  unfold Console.performEach
  induction entries generalizing c with
  | nil => exact hc
  | cons entry rest ih => exact ih (hc.performIn entry)

/-! ## Single calls -/

section Calls

variable {plain : Bool} {channel : Channel} {text : String} {seen : List Char}

/-- A text that is left out changes nothing that was written, and not the switch. -/
theorem performIn_text_of_leavesOut (c : Console) (hout : LeavesOut plain channel) (text : String) :
    (c.performIn (plain, .text channel text)).shown = c.shown ∧
      (c.performIn (plain, .text channel text)).atLineStart = c.atLineStart := by
  have hsame : c.performIn (plain, .text channel text) = { c with plain } :=
    print_of_leavesOut (c := { c with plain }) hout text
  rw [hsame]
  exact ⟨rfl, rfl⟩

/-- Any other text is written once, so that it shows what it shows by itself. -/
theorem performIn_text_of_shows (c : Console) (hout : ¬ LeavesOut plain channel)
    (hseen : Shows text.toList seen) :
    ∃ dressed, (c.performIn (plain, .text channel text)).shown =
        (channel.stream, dressed) :: c.shown ∧ Shows dressed.toList seen := by
  refine ⟨_, shown_print_of_not_leavesOut (c := { c with plain }) hout text, ?_⟩
  rw [← decolor_eq_iff, decolor_dress]
  exact decolor_of_shows hseen

/-- A text of escape sequences does not change the switch, written or not. -/
theorem atLineStart_performIn_text (c : Console) (plain : Bool) (channel : Channel)
    (hseen : Shows text.toList []) :
    (c.performIn (plain, .text channel text)).atLineStart = c.atLineStart := by
  by_cases hout : LeavesOut plain channel
  · exact (performIn_text_of_leavesOut c hout text).2
  · have hswitch := atLineStart_print_of_not_leavesOut (c := { c with plain }) hout text
    rwa [decolor_of_shows hseen] at hswitch

/-- At the start of a line there is nothing to do. -/
theorem performIn_newLine_of_atLineStart (h : c.atLineStart = true) (plain : Bool)
    (channel : Channel) : c.performIn (plain, .newLine channel) = { c with plain } := if_pos h

theorem performIn_newLine_of_not_atLineStart (h : c.atLineStart = false) (plain : Bool)
    (channel : Channel) :
    c.performIn (plain, .newLine channel) = c.performIn (plain, .text channel "\n") := by
  show startNewLine { c with plain } channel = _
  rw [startNewLine, if_neg (by rw [h]; exact Bool.false_ne_true)]
  rfl

/-- Going to the start of a line gets there. -/
theorem atLineStart_performIn_newLine (c : Console) (hout : ¬ LeavesOut plain channel) :
    (c.performIn (plain, .newLine channel)).atLineStart = true := by
  by_cases h : c.atLineStart = true
  · rw [performIn_newLine_of_atLineStart h]
    exact h
  · rw [performIn_newLine_of_not_atLineStart (Bool.not_eq_true _ ▸ h)]
    exact atLineStart_print_of_not_leavesOut (c := { c with plain }) hout "\n"

end Calls

/-- Some calls were made on a new console. Its switch is on exactly if nothing visible was written,
or a line feed last. A text that minimal output leaves out is not written; any other is written once
and shows what it shows by itself. Neither a text that is left out nor one of escape sequences only
changes the switch. Going to the start of a line on a channel that is not left out gets there: it
writes nothing if the console is there, and one text that shows one line feed if not, so that doing
it again writes nothing. -/
theorem line_start_of_calls (plain color : Bool) (calls : List (Bool × Call)) :
    let c := (new plain color).performEach calls
    (c.atLineStart = true ↔ c.visible = [] ∨ c.visible.getLast? = some '\n') ∧
    (∀ plain channel text seen, Shows text.toList seen →
      let next := c.performIn (plain, .text channel text)
      (LeavesOut plain channel → next.shown = c.shown) ∧
      (¬ LeavesOut plain channel →
        ∃ dressed, next.shown = (channel.stream, dressed) :: c.shown ∧ Shows dressed.toList seen) ∧
      (LeavesOut plain channel ∨ seen = [] → next.atLineStart = c.atLineStart)) ∧
    ∀ plain channel, ¬ LeavesOut plain channel →
      let next := c.performIn (plain, .newLine channel)
      next.atLineStart = true ∧
      (c.atLineStart = true → next.shown = c.shown) ∧
      (c.atLineStart = false →
        ∃ dressed, next.shown = (channel.stream, dressed) :: c.shown ∧
          Shows dressed.toList ['\n']) ∧
      ∀ again other, (next.performIn (again, .newLine other)).shown = next.shown := by
  intro c
  refine ⟨(tracks_new plain color).performEach calls, ?_, ?_⟩
  · intro plain channel text seen hseen
    refine ⟨fun hout => (performIn_text_of_leavesOut c hout text).1,
      fun hout => performIn_text_of_shows c hout hseen, ?_⟩
    rintro (hout | rfl)
    · exact (performIn_text_of_leavesOut c hout text).2
    · exact atLineStart_performIn_text c plain channel hseen
  · intro plain channel hout
    have hstart := atLineStart_performIn_newLine c hout
    refine ⟨hstart, fun h => ?_, fun h => ?_, fun again other => ?_⟩
    · rw [performIn_newLine_of_atLineStart h]
    · rw [performIn_newLine_of_not_atLineStart h]
      exact performIn_text_of_shows c hout (decolor_eq_iff.mp (by decide +kernel))
    · rw [performIn_newLine_of_atLineStart hstart]

/-- Results without a line feed, then a line that is left out and a text of escape sequences only:
the console is not at the start of a line, and a line feed on the other stream takes it there. -/
theorem line_start_of_calls_mixed :
    let calls : List (Bool × Call) :=
      [(true, .text .normal "A 0"), (true, .text .sometimes "Wrote\n"),
        (false, .text .always "\x1b[1m\x1b[0m")]
    let c := (new true true).performEach calls
    c.visible = "A 0".toList ∧ c.atLineStart = false ∧ Shows "\x1b[2".toList [] ∧
      (c.performIn (false, .text .always "\x1b[2")).atLineStart = c.atLineStart ∧
      ¬ LeavesOut true .always ∧ (c.performIn (true, .newLine .always)).atLineStart = true := by
  intro calls c
  obtain ⟨hswitch, htext, hline⟩ := line_start_of_calls true true calls
  have hvisible : c.visible = "A 0".toList := by decide +kernel
  have hoff : c.atLineStart = false := by
    rw [Bool.eq_false_iff, Ne, hswitch, hvisible]
    decide +kernel
  -- A sequence that is not finished shows nothing.
  have hseen : Shows "\x1b[2".toList [] := decolor_eq_iff.mp (by decide +kernel)
  have hout : ¬ LeavesOut true .always := fun h => nomatch h.2
  exact ⟨hvisible, hoff, hseen, (htext false .always _ [] hseen).2.2 (.inr rfl), hout,
    (hline true .always hout).1⟩

end Console
end Teach6809
