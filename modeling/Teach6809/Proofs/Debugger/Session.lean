import Teach6809.Debugger.Session

/-!
# What a session only says

Talking changes the console of a session and whether it still has to say where control is, and
nothing else (`Session.Says`); taking over a reply brings its simulator too. A command that cannot
be read is answered with a text; it reaches neither the simulator nor the end of the session.
-/

namespace Teach6809
namespace Session

/-- From one moment to another a session has only talked. -/
structure Says (s after : Session) : Prop where
  simulator : after.simulator = s.simulator
  finished : after.finished = s.finished
  draw : after.draw = s.draw

namespace Says

variable {s t u : Session}

theorem refl (s : Session) : s.Says s := ⟨rfl, rfl, rfl⟩

theorem trans (h : s.Says t) (h' : t.Says u) : s.Says u :=
  ⟨h'.simulator.trans h.simulator, h'.finished.trans h.finished, h'.draw.trans h.draw⟩

end Says

/-! ## Ways to talk -/

theorem says_say (s : Session) (channel : Channel) (text : String) :
    s.Says (s.say channel text) :=
  ⟨rfl, rfl, rfl⟩

/-- Telling what was stored is talk, by induction on the stores. -/
theorem says_sayWrites (s : Session) (writes : List (Word × Byte)) :
    s.Says (s.sayWrites writes) := by
  unfold sayWrites
  induction writes generalizing s with
  | nil => exact .refl s
  | cons entry rest ih => exact (s.says_say _ _).trans (ih _)

/-- Telling a diagnostic is talk, in words or drawn. -/
theorem says_report (s : Session) (problem : Diagnostic) : s.Says (s.report problem) := by
  unfold report
  split
  · exact s.says_say _ _
  · exact ⟨rfl, rfl, rfl⟩

/-- Taking over a reply is to go on with its simulator and to tell what was stored. -/
theorem says_take {α : Type} (s : Session) (reply : Reply α) :
    ({ s with simulator := reply.simulator } : Session).Says (s.take reply) := by
  have hviews (views : List Snapshot) (t : Session) :
      t.Says (views.foldl (fun s view => s.sayWrites view.writes) t) := by
    induction views generalizing t with
    | nil => exact .refl t
    | cons view rest ih => exact (t.says_sayWrites _).trans (ih _)
  have htraced : ({ s with simulator := reply.simulator } : Session).Says
      { s with
        simulator := reply.simulator
        console := s.console.printTrace s.settings reply.started } := ⟨rfl, rfl, rfl⟩
  exact htraced.trans (hviews reply.published _)

/-- Telling the count and the halt is talk. -/
theorem says_sayExecuted (s : Session) (count : Nat) : s.Says (s.sayExecuted count) := by
  unfold sayExecuted
  dsimp only
  split <;> split <;> exact ⟨rfl, rfl, rfl⟩

theorem says_echo (s : Session) (command : List Char) : s.Says (s.echo command) := by
  unfold echo
  split
  · exact s.says_say _ _
  · exact .refl s

theorem says_sayPosition (s : Session) : s.Says s.sayPosition := by
  unfold sayPosition
  dsimp only
  split <;> exact s.says_say _ _

/-- Waiting for a command is to say at most where control is. -/
theorem says_await (s : Session) : s.Says s.await := by
  unfold await
  dsimp only
  have hline : s.Says { s with console := s.console.startNewLine .always } := ⟨rfl, rfl, rfl⟩
  split
  · have hposition := hline.trans (says_sayPosition _)
    exact ⟨hposition.simulator, hposition.finished, hposition.draw⟩
  · exact hline

/-! ## Commands that cannot be read -/

/-- A command that cannot be read is not executed. -/
theorem accept_of_error {line : List Char} {problem : CommandProblem}
    (h : Command.read line = .error problem) (s : Session) :
    (s.accept line).simulator = s.simulator ∧ (s.accept line).finished = s.finished := by
  have hsaid : s.Says (s.accept line) := by
    unfold accept
    dsimp only
    split
    · exact s.says_echo line
    · rw [h]
      exact (s.says_echo line).trans <| (says_say _ _ _).trans <| (says_say _ _ _).trans <|
        says_await _
  exact ⟨hsaid.simulator, hsaid.finished⟩

end Session
end Teach6809
