import Teach6809.Proofs.Debugger.Effect
import Teach6809.Proofs.Simulator.Action

/-!
# Commands that only look

A session is what its commands do to the simulator (`Simulator.carryOut`), one after another, up to
the first `quit`; what it says has no part in this. So it makes no difference to leave out lines
that are blank, cannot be read or are commands that only show something (`Script.LeavesOut`). Main
statement: `inert_of_script`.
-/

namespace Teach6809

/-! ## Commands -/

namespace Command

/-- Whether a command only shows something. -/
def isInert : Command → Bool
  | .help | .registers | .memory _ _ | .program => true
  | _ => false

/-- The command of a line, if the line is not blank and can be read. -/
def ofLine? (line : List Char) : Option Command :=
  if Text.allBlank line then none else (read line).toOption

/-- Showing something does nothing to the simulator. -/
theorem carryOut_of_isInert {command : Command} (h : command.isInert = true) (s : Simulator) :
    s.carryOut command = s := by
  cases command with
  | help | registers | memory | program => rfl
  | _ => cases h

/-- Commands that only show something can be left out. -/
theorem foldl_carryOut_filter (commands : List Command) (s : Simulator) :
    (commands.filter (!·.isInert)).foldl Simulator.carryOut s =
      commands.foldl Simulator.carryOut s := by
  rw [List.foldl_filter]
  congr 1
  funext s command
  by_cases h : command.isInert = true
  · simp [h, carryOut_of_isInert h]
  · simp [h]

end Command

/-! ## What a session does -/

namespace Session

variable {s : Session}

/-- A line does what its command does, and nothing if it has none. -/
theorem accept_of_ofLine? (s : Session) (line : List Char) :
    (s.accept line).simulator = (Command.ofLine? line).toList.foldl Simulator.carryOut s.simulator ∧
      (s.accept line).finished = (s.finished || decide (Command.ofLine? line = some .quit)) := by
  have hecho := s.says_echo line
  unfold Command.ofLine?
  by_cases hblank : Text.allBlank line = true
  · rw [accept, if_pos hblank]
    simp [hblank, hecho.simulator, hecho.finished]
  · rw [if_neg hblank]
    cases hread : Command.read line with
    | error problem =>
      obtain ⟨hsimulator, hfinished⟩ := accept_of_error hread s
      simp [Except.toOption, hsimulator, hfinished]
    | ok command =>
      have hexecute := (s.echo line).says_execute command
      have hawait := hexecute.trans (says_await _)
      rw [accept, if_neg hblank, hread]
      dsimp only
      split
      · simp [Except.toOption, hexecute.simulator, hexecute.finished, hecho.simulator,
          hecho.finished]
      · simp [Except.toOption, hawait.simulator, hawait.finished, hecho.simulator,
          hecho.finished]

/-- The commands that a session carries out, the first `quit` included. -/
def executed (s : Session) : List (List Char) → List Command
  | [] => []
  | line :: rest =>
    (Command.ofLine? line).toList ++
      if (s.accept line).finished then [] else (s.accept line).executed rest

/-- Lines make of the simulator what their commands make of it. -/
theorem simulator_acceptAll (s : Session) (script : List (List Char)) :
    (s.acceptAll script).simulator = (s.executed script).foldl Simulator.carryOut s.simulator := by
  induction script generalizing s with
  | nil => rfl
  | cons line rest ih =>
    obtain ⟨hsimulator, -⟩ := s.accept_of_ofLine? line
    rw [acceptAll, executed, List.foldl_append, ← hsimulator]
    split
    · rfl
    · exact ih (s.accept line)

/-- A session leaves behind what its commands have made of the simulator. -/
theorem simulator_play (s : Session) (script : List (List Char)) :
    (s.play script).simulator = (s.executed script).foldl Simulator.carryOut s.simulator := by
  rw [← simulator_acceptAll]
  unfold play close
  dsimp only
  split
  · rfl
  · exact (says_echo _ []).simulator

/-- Typed commands are taken like any others. -/
theorem playTyped_fst (hs : s.finished = false) (entries : List LineEditor.Typed) :
    (s.playTyped entries).1 = s.play (entries.map LineEditor.Typed.command) := by
  induction entries generalizing s with
  | nil => simp [playTyped, play, acceptAll, hs]
  | cons entry rest ih =>
    rw [playTyped, List.map_cons, play, acceptAll]
    dsimp only
    by_cases hafter : (s.accept entry.command).finished = true
    · simp [hafter]
    · simp only [hafter]
      exact ih (Bool.eq_false_iff.mpr hafter)

end Session

/-! ## Leaving out lines -/

namespace Script

/-- Whether a line makes no difference: it is blank, cannot be read, or is a command that only shows
something. -/
def isInert (line : List Char) : Bool := (Command.ofLine? line).all Command.isInert

/-- A script and what is left of it when some of the lines that make no difference are left out. -/
inductive LeavesOut : List (List Char) → List (List Char) → Prop where
  | nil : LeavesOut [] []
  | keep {script shorter : List (List Char)} (line : List Char) (h : LeavesOut script shorter) :
      LeavesOut (line :: script) (line :: shorter)
  | drop {script shorter : List (List Char)} {line : List Char} (hline : isInert line = true)
      (h : LeavesOut script shorter) : LeavesOut (line :: script) shorter

end Script

namespace Session

variable {s t : Session} {script shorter : List (List Char)}

/-- The commands that do something are the same without lines that make no difference. -/
theorem executed_of_leavesOut (h : Script.LeavesOut script shorter) (hs : s.finished = false)
    (ht : t.finished = false) :
    (t.executed shorter).filter (!·.isInert) = (s.executed script).filter (!·.isInert) := by
  induction h generalizing s t with
  | nil => rfl
  | keep line _ ih =>
    obtain ⟨-, hafter⟩ := s.accept_of_ofLine? line
    obtain ⟨-, hafter'⟩ := t.accept_of_ofLine? line
    rw [hs, Bool.false_or] at hafter
    rw [ht, Bool.false_or] at hafter'
    rw [executed, executed, List.filter_append, List.filter_append]
    congr 1
    -- A session that is left takes no further line of its script.
    by_cases hquit : Command.ofLine? line = some .quit
    · simp [hafter, hafter', hquit]
    · rw [decide_eq_false hquit] at hafter hafter'
      rw [hafter, hafter']
      exact ih hafter hafter'
  | @drop script shorter line hline _ ih =>
    -- A line that is left out holds an inert command or none, so it does not end the session.
    obtain ⟨-, hafter⟩ := s.accept_of_ofLine? line
    have hinert : (Command.ofLine? line).toList.filter (!·.isInert) = [] ∧
        decide (Command.ofLine? line = some .quit) = false := by
      unfold Script.isInert at hline
      cases hcommand : Command.ofLine? line with
      | none => exact ⟨rfl, rfl⟩
      | some command =>
        rw [hcommand] at hline
        cases command with
        | help | registers | memory | program => exact ⟨rfl, rfl⟩
        | _ => cases hline
    rw [hs, hinert.2, Bool.or_self] at hafter
    rw [executed, hafter, List.filter_append, hinert.1]
    exact ih hafter ht

/-- Whatever lines of a script are left out that are blank, cannot be read or are commands to show
help, registers, memory or the program: a session leaves the same simulator behind, and the commands
that it carries out up to the first `quit` or the end are the same but for those that only show
something. What it leaves behind is, for any script, what these commands make of the simulator. So
it is for commands that are typed. -/
theorem inert_of_script (h : Script.LeavesOut script shorter) (draw : Drawing)
    (settings : Settings) (console : Console) (simulator : Simulator) (echoes : Bool) :
    let s := startWith draw settings console simulator echoes
    (s.play shorter).simulator = (s.play script).simulator ∧
    (s.executed shorter).filter (!·.isInert) = (s.executed script).filter (!·.isInert) ∧
    (∀ lines, (s.play lines).simulator =
      (s.executed lines).foldl Simulator.carryOut s.simulator) ∧
    ∀ entries others : List LineEditor.Typed, entries.map LineEditor.Typed.command = script →
      others.map LineEditor.Typed.command = shorter →
      (s.playTyped others).1.simulator = (s.playTyped entries).1.simulator := by
  intro s
  have hs : s.finished = false := (says_await _).finished
  have hexecuted := executed_of_leavesOut h hs hs
  have hplay : (s.play shorter).simulator = (s.play script).simulator := by
    rw [simulator_play, simulator_play, ← Command.foldl_carryOut_filter, hexecuted,
      Command.foldl_carryOut_filter]
  refine ⟨hplay, hexecuted, s.simulator_play, fun entries others hentries hothers => ?_⟩
  rw [playTyped_fst hs, playTyped_fst hs, hentries, hothers]
  exact hplay

/-- Of six lines three are left out; the last one follows `quit` and is not carried out. -/
theorem inert_of_script_quit :
    let script := ["mem 0".toList, "jump".toList, "eval LDA #1".toList, " ".toList, "q".toList,
      "reset".toList]
    let shorter := ["eval LDA #1".toList, "q".toList, "reset".toList]
    let s := start .default (.new true false)
      (Simulator.reached .default [.load "INCA\n END", .assemble]) true
    Script.LeavesOut script shorter ∧
      s.executed script = [.memory 0 16, .eval "LDA #1", .quit] ∧
      s.executed shorter = [.eval "LDA #1", .quit] ∧
      (s.play shorter).simulator = (s.play script).simulator ∧
      (s.play script).simulator = (s.simulator.evaluate "LDA #1").1 := by
  intro script shorter s
  have hleft : Script.LeavesOut script shorter :=
    .drop (by decide +kernel) <| .drop (by decide +kernel) <| .keep _ <|
      .drop (by decide +kernel) <| .keep _ <| .keep _ .nil
  have hexecuted : s.executed script = [.memory 0 16, .eval "LDA #1", .quit] := by decide +kernel
  obtain ⟨hplay, -, heffect, -⟩ := inert_of_script hleft Drawing.brief .default (.new true false)
    (Simulator.reached .default [.load "INCA\n END", .assemble]) true
  refine ⟨hleft, hexecuted, by decide +kernel, hplay, ?_⟩
  rw [show (s.play script).simulator = _ from heffect script,
    show (startWith Drawing.brief _ _ _ _).executed script = _ from hexecuted]
  rfl

end Session
end Teach6809
