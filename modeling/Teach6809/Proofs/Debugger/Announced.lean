import Teach6809.Proofs.Console.Visible
import Teach6809.Proofs.Debugger.Session

/-!
# The counts that a session tells

After a step or run the debugger tells in a line how many instructions were executed
(`announcement`). The count can be read off the line as it is shown, coloured or plain
(`announced`), and no other line of a step, a run or the talk between two commands reads like one:
traces, stores, wordings of diagnostics, halts and positions. Of the way diagnostics are drawn this
has to be assumed (`Drawing.TellsNoCount`). So the texts on a console say how many instructions the
user has been told of (`Console.announced`), and of all talk only `Session.sayExecuted` adds to
them.
-/

namespace Teach6809

/-! ## Lines that tell a count -/

/-- The line that tells how many instructions were executed. -/
def announcement (count : Nat) : String :=
  "Executed " ++ toString count ++ " instruction" ++ (if count = 1 then "" else "s") ++ ".\n"

/-- The count that a text tells when it is shown; zero if it tells none. -/
def announced (text : String) : Nat :=
  let visible := decolor text.toList
  let count := Nat.ofDigitChars 10 ((visible.drop 9).takeWhile Char.isDigit) 0
  if visible = (announcement count).toList then count else 0

/-- The counts that were told on a console, together. -/
def Console.announced (c : Console) : Nat :=
  c.shown.foldr (fun entry total => Teach6809.announced entry.2 + total) 0

/-- No diagnostic is drawn so that it reads like a count. -/
def Drawing.TellsNoCount (draw : Drawing) : Prop :=
  ∀ source problem, announced (draw source problem ++ "\n") = 0

/-- The line goes on behind the number with a space. -/
theorem toList_announcement (count : Nat) :
    ∃ rest, (announcement count).toList =
      "Executed ".toList ++ (Nat.toDigits 10 count ++ ' ' :: rest) := by
  refine ⟨("instruction" ++ (if count = 1 then "" else "s") ++ ".\n").toList, ?_⟩
  simp [announcement]

/-- The count is read off the line. -/
theorem announced_of_visible {text : String} {count : Nat}
    (h : decolor text.toList = (announcement count).toList) : announced text = count := by
  obtain ⟨rest, hrest⟩ := toList_announcement count
  have hdigits : ((announcement count).toList.drop 9).takeWhile Char.isDigit =
      Nat.toDigits 10 count := by
    rw [hrest]
    show (Nat.toDigits 10 count ++ ' ' :: rest).takeWhile Char.isDigit = _
    rw [List.takeWhile_append_of_pos fun c hc =>
        Nat.isDigit_of_mem_toDigits (by omega) (by omega) hc,
      List.takeWhile_cons_of_neg (by decide), List.append_nil]
  unfold announced
  dsimp only
  rw [h, hdigits, Nat.ofDigitChars_ten_toDigits]
  exact if_pos rfl

/-- The line itself tells its count. -/
theorem announced_announcement (count : Nat) : announced (announcement count) = count := by
  have hplain : ∀ c ∈ (announcement count).toList, c ≠ escape := by
    have hdigits : ∀ c ∈ Nat.toDigits 10 count, c ≠ escape := by
      intro c hc
      have hdigit := Nat.isDigit_of_mem_toDigits (by omega) (by omega) hc
      rintro rfl
      exact absurd hdigit (by decide)
    have hending : ∀ c ∈ (if count = 1 then "" else "s").toList, c ≠ escape := by
      split <;> simp [escape]
    simp only [announcement, String.toList_append, List.mem_append, or_imp, forall_and,
      Nat.toString_eq_ofList_toDigits, String.toList_ofList]
    exact ⟨⟨⟨⟨by simp [escape], hdigits⟩, by simp [escape]⟩, hending⟩, by simp [escape]⟩
  have hvisible := decolor_of_plain hplain []
  rw [List.append_nil, decolor_nil, List.append_nil] at hvisible
  exact announced_of_visible hvisible

/-! ## Other lines -/

/-- What does not show the start of such a line tells no count. -/
theorem announced_eq_zero {text : String} (h : ¬ ['E', 'x'] <+: decolor text.toList) :
    announced text = 0 := by
  unfold announced
  dsimp only
  apply if_neg
  intro hsame
  obtain ⟨rest, hrest⟩ := toList_announcement
    (Nat.ofDigitChars 10 (((decolor text.toList).drop 9).takeWhile Char.isDigit) 0)
  rw [hsame, hrest] at h
  exact h ⟨_, rfl⟩

/-- Two plain characters in front, and not those of a line that tells a count. -/
def startsOtherwise : List Char → Bool
  | a :: b :: _ => a != escape && b != escape && !(a == 'E' && b == 'x')
  | _ => false

/-- What is shown with another start tells no count. -/
theorem announced_of_start {text : String} (h : startsOtherwise text.toList = true) :
    announced text = 0 := by
  apply announced_eq_zero
  match htext : text.toList, h with
  | a :: b :: rest, h =>
    simp only [startsOtherwise, Bool.and_eq_true, bne_iff_ne] at h
    obtain ⟨⟨ha, hb⟩, hother⟩ := h
    rw [decolor_cons ha, decolor_cons hb]
    rintro ⟨after, hafter⟩
    cases hafter
    exact absurd hother (by decide)

/-- What follows the first two characters does not matter. -/
theorem startsOtherwise_append {head : List Char} (h : startsOtherwise head = true)
    (rest : List Char) : startsOtherwise (head ++ rest) = true := by
  match head, h with
  | _ :: _ :: _, h => exact h

/-- A literal starts as its characters do. -/
theorem startsOtherwise_ofList {head : List Char} (h : startsOtherwise head = true) :
    startsOtherwise (String.ofList head).toList = true := by
  rwa [String.toList_ofList]

/-- A word in hexadecimal digits has no letter that such a line starts with. -/
theorem startsOtherwise_hexWord (w : Word) :
    startsOtherwise (Text.hexWord w).toList = true := by
  have hdigit : ∀ d < 16, Text.hexDigit d ≠ escape ∧ Text.hexDigit d ≠ 'x' := by decide
  obtain ⟨hfirst, -⟩ := hdigit (w.toNat / 16 / 16 / 16 % 16) (Nat.mod_lt _ (by omega))
  obtain ⟨hsecond, hother⟩ := hdigit (w.toNat / 16 / 16 % 16) (Nat.mod_lt _ (by omega))
  rw [Text.hexWord, Text.hex, String.toList_ofList]
  show startsOtherwise [Text.hexDigit (w.toNat / 16 / 16 / 16 % 16),
    Text.hexDigit (w.toNat / 16 / 16 % 16), Text.hexDigit (w.toNat / 16 % 16),
    Text.hexDigit (w.toNat % 16)] = true
  simp [startsOtherwise, hfirst, hsecond, hother]

theorem startsOtherwise_mnemonic (m : Mnemonic) : startsOtherwise m.name.toList = true := by
  have eachOf : ∀ m ∈ Mnemonic.all, startsOtherwise m.name.toList = true := by decide +kernel
  exact eachOf m m.mem_all

/-- No wording of a cause reads like a count. -/
theorem startsOtherwise_cause (cause : Cause) :
    startsOtherwise cause.message.toList = true := by
  unfold Cause.message
  cases cause with
  | missingEnd last =>
    cases last with
    | none => exact startsOtherwise_ofList rfl
    | some m =>
      simp only [String.toList_append, List.append_assoc]
      exact startsOtherwise_append (startsOtherwise_ofList rfl) _
  | emptyLabel | nothingToEvaluate => exact startsOtherwise_ofList rfl
  | unsupportedMode m _ | malformedPair m | programTooLarge m =>
    simp only [String.toList_append, List.append_assoc]
    exact startsOtherwise_append (startsOtherwise_mnemonic m) _
  | _ =>
    simp only [String.toList_append, List.append_assoc]
    exact startsOtherwise_append (startsOtherwise_ofList rfl) _

/-- No wording of a diagnostic reads like a count. -/
theorem startsOtherwise_diagnostic (problem : Diagnostic) :
    startsOtherwise problem.message.toList = true := by
  unfold Diagnostic.message
  split
  · simp only [String.toList_append, List.append_assoc]
    exact startsOtherwise_append (startsOtherwise_ofList rfl) _
  · exact startsOtherwise_cause problem.cause

/-- A report starts with a bracket and the code of its kind. -/
theorem startsOtherwise_report (problem : Diagnostic) :
    startsOtherwise problem.report.toList = true := by
  have hcode : startsOtherwise ("[".toList ++ problem.cause.kind.code.toList) = true := by
    rw [show "[".toList = ['['] from String.toList_ofList]
    cases problem.cause.kind with
    | _ => exact congrArg (fun code => startsOtherwise ('[' :: code)) String.toList_ofList
  unfold Diagnostic.report
  dsimp only
  split
  all_goals
    simp only [String.toList_append, List.append_assoc]
    rw [← List.append_assoc]
    exact startsOtherwise_append hcode _

/-- Drawn on one line, a diagnostic tells no count. -/
theorem Drawing.tellsNoCount_brief : Drawing.brief.TellsNoCount := by
  intro source problem
  apply announced_of_start
  rw [String.toList_append]
  exact startsOtherwise_append (startsOtherwise_report problem) _

/-! ## Consoles -/

namespace Console

@[simp] theorem announced_track (c : Console) (text : String) :
    (c.track text).announced = c.announced := by
  unfold track
  split <;> rfl

/-- A text that is shown adds the count it tells. -/
theorem announced_emit (c : Console) (stream : Stream) (text : String) :
    (c.emit stream text).announced = Teach6809.announced text + c.announced := rfl

/-- Neither colour nor plainness hides a count. -/
theorem announced_dress (c : Console) (channel : Channel) (text : String) :
    Teach6809.announced (c.dress channel text) = Teach6809.announced text := by
  unfold Teach6809.announced
  rw [c.decolor_dress]

/-- A text that is always shown adds the count it tells, however it is dressed. -/
theorem announced_print (c : Console) {channel : Channel} (hchannel : channel ≠ .sometimes)
    (text : String) :
    (c.print channel text).announced = Teach6809.announced text + c.announced := by
  unfold print
  rw [if_neg fun h => hchannel h.2, announced_track, announced_emit, announced_dress]

/-- A text without a count adds none, shown or not. -/
theorem announced_print_of_zero (c : Console) (channel : Channel) {text : String}
    (h : Teach6809.announced text = 0) : (c.print channel text).announced = c.announced := by
  unfold print
  split
  · rfl
  · rw [announced_track, announced_emit, announced_dress, h, Nat.zero_add]

theorem announced_startNewLine (c : Console) (channel : Channel) :
    (c.startNewLine channel).announced = c.announced := by
  unfold startNewLine
  split
  · rfl
  · exact c.announced_print_of_zero channel (by decide)

/-- A trace starts every line with an address. -/
theorem announced_printTrace (c : Console) (settings : Settings)
    (started : List PlacedInstruction) :
    (c.printTrace settings started).announced = c.announced := by
  have hline (i : PlacedInstruction) : Teach6809.announced (Report.traceLine i) = 0 := by
    apply announced_of_start
    simp only [Report.traceLine, String.toList_append, List.append_assoc]
    exact startsOtherwise_append (startsOtherwise_hexWord i.address) _
  unfold printTrace printAll
  split
  · rw [List.foldl_map]
    induction started generalizing c with
    | nil => rfl
    | cons i rest ih => rw [List.foldl_cons, ih, announced_print_of_zero _ _ (hline i)]
  · rfl

end Console

/-! ## Talk -/

namespace Session

variable {s : Session} {channel : Channel} {text : String}

/-- Saying something else tells no count. -/
theorem announced_say (s : Session) (channel : Channel) (h : startsOtherwise text.toList = true) :
    (s.say channel text).console.announced = s.console.announced := by
  apply Console.announced_print_of_zero
  apply announced_of_start
  rw [String.toList_append]
  exact startsOtherwise_append h _

/-- Telling what was stored tells no count. -/
theorem announced_sayWrites (s : Session) (writes : List (Word × Byte)) :
    (s.sayWrites writes).console.announced = s.console.announced := by
  unfold sayWrites
  induction writes generalizing s with
  | nil => rfl
  | cons entry rest ih =>
    rw [List.foldl_cons, ih]
    apply announced_say
    simp only [String.toList_append, List.append_assoc]
    exact startsOtherwise_append (startsOtherwise_ofList rfl) _

/-- Neither the wording of a diagnostic nor its drawing tells a count. -/
theorem announced_report (hdraw : s.draw.TellsNoCount) (problem : Diagnostic) :
    (s.report problem).console.announced = s.console.announced := by
  unfold report
  split
  · exact s.announced_say .always (startsOtherwise_diagnostic problem)
  · show Teach6809.announced (s.drawn problem) + s.console.announced = _
    rw [drawn, hdraw, Nat.zero_add]

/-- Telling where control is tells no count. -/
theorem announced_sayPosition (s : Session) :
    s.sayPosition.console.announced = s.console.announced := by
  unfold sayPosition
  dsimp only
  split
  all_goals
    apply announced_say
    simp only [String.toList_append, List.append_assoc]
    exact startsOtherwise_append (startsOtherwise_ofList rfl) _

theorem announced_await (s : Session) : s.await.console.announced = s.console.announced := by
  unfold await
  dsimp only
  split
  · exact (announced_sayPosition _).trans (s.console.announced_startNewLine .always)
  · exact s.console.announced_startNewLine .always

/-- Showing a command tells no count, whatever the command looks like. -/
theorem announced_echo (s : Session) (command : List Char) :
    (s.echo command).console.announced = s.console.announced := by
  unfold echo
  split
  · apply Console.announced_print_of_zero
    apply announced_eq_zero
    -- What is visible starts behind the sequence in front.
    have htext : ("\x1b[1mCommand: \x1b[0m" ++ String.ofList (Text.trim command) ++ "\n").toList =
        Style.bold.opening ++ ("Command: ".toList ++
          (resetSequence ++ (Text.trim command ++ ['\n']))) := by
      simp [Style.opening, Style.number, resetSequence, escape]
    rw [htext, decolor_opening_append, decolor_of_plain (by simp [escape])]
    rintro ⟨after, hafter⟩
    cases hafter
  · rfl

/-- Taking over a reply tells no count. -/
theorem announced_take {α : Type} (s : Session) (reply : Reply α) :
    (s.take reply).console.announced = s.console.announced := by
  have hviews (views : List Snapshot) (t : Session) :
      (views.foldl (fun s view => s.sayWrites view.writes) t).console.announced =
        t.console.announced := by
    induction views generalizing t with
    | nil => rfl
    | cons view rest ih => rw [List.foldl_cons, ih, announced_sayWrites]
  exact (hviews reply.published _).trans (s.console.announced_printTrace _ _)

/-- Of the talk after a step or run, one line tells the count. -/
theorem announced_sayExecuted (s : Session) (count : Nat) :
    (s.sayExecuted count).console.announced = count + s.console.announced := by
  let ending := if count = 1 then "" else "s"
  let counted :=
    if count = 0 then s else s.say .always s!"Executed {count} instruction{ending}."
  -- A count of zero is not told, and adds nothing.
  have hcounted : counted.console.announced = count + s.console.announced := by
    by_cases hcount : count = 0
    · rw [show counted = s from if_pos hcount, hcount, Nat.zero_add]
    · have hline : s!"Executed {count} instruction{ending}." ++ "\n" = announcement count := by
        rw [announcement, String.append_assoc]
        rfl
      rw [show counted = _ from if_neg hcount]
      show (s.console.print .always (_ ++ "\n")).announced = _
      rw [hline, Console.announced_print _ (by decide), announced_announcement]
  have hmessage (reason : Halt) : startsOtherwise reason.message.toList = true := by
    cases reason <;> exact startsOtherwise_ofList rfl
  unfold sayExecuted
  dsimp only
  split
  · rename_i reason _
    exact (counted.announced_say .always (hmessage reason)).trans hcounted
  · exact hcounted

end Session
end Teach6809
