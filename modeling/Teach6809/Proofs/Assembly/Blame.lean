import Teach6809.Proofs.Assembly.Passes
import Teach6809.Proofs.SourceLine.Words

/-!
# What a refused text is blamed on

Every part of a line keeps the place where it was found, and every rule of the assembler but one is
violated at the place of such a part. The one exception is a text without any instruction, which is
blamed on no line. Main statement: `places_of_assemble`; so spans never point outside the line that
they belong to, nor between the bytes of a character.
-/

namespace Teach6809

open Text

variable {source : String} {problem : Diagnostic}

/-- A diagnostic points at characters of a line. -/
def Diagnostic.Points (problem : Diagnostic) (source : List Char) : Prop :=
  ∃ place slice, problem.place = some place ∧ place.Covers source slice

/-! ## Lines -/

namespace SourceLine

variable {lines : List SourceLine}

theorem exact_of_ofSource (h : ofSource source = .ok lines) :
    ∀ line ∈ lines, line.Exact source.toList := by
  rw [ofSource_eq] at h
  obtain ⟨rfl, -⟩ := Except.mapM_eq_ok h
  intro line hline
  obtain ⟨raw, hraw, hread⟩ := List.mem_filterMap.mp hline
  obtain ⟨above, habove, hoffset⟩ := RawLine.isLine hraw
  apply exact_of_read habove
  rw [← hoffset]
  exact Except.toOption_eq_some.mp hread

theorem points_of_ofSource (h : ofSource source = .error problem) :
    problem.Points source.toList := by
  rw [ofSource_eq] at h
  obtain ⟨before, raw, after, hsplit, -, hread⟩ := Except.mapM_eq_error h
  have hraw : raw ∈ RawLine.ofSource source := by
    rw [hsplit]
    simp
  obtain ⟨above, habove, hoffset⟩ := RawLine.isLine hraw
  apply covers_of_read_error habove
  rw [← hoffset]
  exact hread

end SourceLine

/-! ## Passes -/

section Passes

variable {text : List Char} {labels : LabelTable} {lines : List SourceLine}
  {instructions : List LocatedInstruction}

/-- The label that is declared again is where it was found. -/
theorem LabelTable.points_of_collect (hlines : ∀ line ∈ lines, line.Exact text)
    (h : labels.collect lines = .error problem) : problem.Points text := by
  obtain ⟨before, line, after, label, table, rfl, -, hlabel, -, rfl⟩ := collect_eq_error h
  obtain ⟨slice, hcovers, -⟩ := (hlines line (by simp)).label label hlabel
  exact ⟨_, slice, rfl, hcovers⟩

namespace Assembly

theorem points_of_checkLines (hlines : ∀ line ∈ lines, line.Exact text)
    (h : checkLines labels lines = .error problem) : problem.Points text := by
  rw [checkLines_eq] at h
  obtain ⟨before, ⟨n, s⟩, after, hsplit, -, hcheck⟩ := Except.mapM_eq_error h
  have hs : (n, s) ∈ statements lines := by
    rw [hsplit]
    simp
  obtain ⟨line, hline, hstatement, rfl⟩ := mem_statements.mp hs
  rcases checkStatement_eq_error hcheck with ⟨-, rfl⟩ | ⟨i, cause, -, -, rfl⟩
  · obtain ⟨slice, hcovers, -⟩ := (hlines line hline).mnemonic s hstatement
    exact ⟨_, slice, rfl, hcovers⟩
  · obtain ⟨slice, hcovers⟩ := (hlines line hline).statement s hstatement
    exact ⟨_, slice, rfl, hcovers⟩

/-- Checked instructions are where their statements were found. -/
theorem covers_of_checkLines (hlines : ∀ line ∈ lines, line.Exact text)
    (h : checkLines labels lines = .ok instructions) :
    ∀ i ∈ instructions, ∃ slice, Place.Covers ⟨i.line, i.span⟩ text slice := by
  rw [checkLines_eq] at h
  obtain ⟨rfl, -⟩ := Except.mapM_eq_ok h
  intro i hi
  obtain ⟨⟨n, s⟩, hs, hcheck⟩ := List.mem_filterMap.mp hi
  obtain ⟨hline, hspan, -⟩ := instruction_of_checkStatement (Except.toOption_eq_some.mp hcheck)
  obtain ⟨line, hmem, hstatement, rfl⟩ := mem_statements.mp hs
  rw [hline, hspan]
  exact (hlines line hmem).statement s hstatement

variable (hinstructions : ∀ i ∈ instructions, ∃ slice, Place.Covers ⟨i.line, i.span⟩ text slice)
include hinstructions

theorem points_of_requireEnd (h : requireEnd instructions = .error problem) :
    problem.Points text ∨ problem = .unplaced (.missingEnd none) := by
  rcases requireEnd_eq_error h with ⟨-, rfl⟩ | ⟨last, hlast, -, rfl⟩
  · exact .inr rfl
  · obtain ⟨slice, hcovers⟩ := hinstructions last (List.mem_of_getLast? hlast)
    exact .inl ⟨_, slice, rfl, hcovers⟩

theorem points_of_place (h : place origin.toNat instructions = .error problem) :
    problem.Points text := by
  obtain ⟨before, i, after, rfl, -, -, rfl⟩ := place_eq_error (by decide) h
  obtain ⟨slice, hcovers⟩ := hinstructions i (by simp)
  exact ⟨_, slice, rfl, hcovers⟩

/-- Placing keeps the instructions, so the last pass blames one of them. -/
theorem points_of_resolve {p : Program} {placed : List PlacedInstruction}
    (hplaced : place origin.toNat instructions = .ok placed)
    (h : resolve p placed = .error problem) : problem.Points text := by
  obtain ⟨before, i, after, cause, hsplit, -, -, rfl⟩ := resolve_eq_error h
  have hkept := (place_eq_ok hplaced (by decide)).1
  have hmem : i.toLocatedInstruction ∈ instructions := by
    rw [← hkept, hsplit]
    simp
  obtain ⟨slice, hcovers⟩ := hinstructions i.toLocatedInstruction hmem
  exact ⟨_, slice, rfl, hcovers⟩

end Assembly
end Passes

/-! ## All passes -/

/-- A text that is refused is blamed on a part of a line, or has no instruction. -/
theorem assemble_blame (h : assemble source = .error problem) :
    problem.Points source.toList ∨ problem = .unplaced (.missingEnd none) := by
  unfold assemble at h
  -- One pass after the other: what an earlier pass delivered is exact, so the next blames exactly.
  rcases Except.bind_eq_error.mp h with hlines | ⟨lines, hlines, h⟩
  · exact .inl (SourceLine.points_of_ofSource hlines)
  have hexact := SourceLine.exact_of_ofSource hlines
  rcases Except.bind_eq_error.mp h with hlabels | ⟨labels, -, h⟩
  · exact .inl (LabelTable.points_of_collect hexact hlabels)
  rcases Except.bind_eq_error.mp h with hcheck | ⟨instructions, hcheck, h⟩
  · exact .inl (Assembly.points_of_checkLines hexact hcheck)
  have hcovers := Assembly.covers_of_checkLines hexact hcheck
  rcases Except.bind_eq_error.mp h with hend | ⟨_, -, h⟩
  · exact Assembly.points_of_requireEnd hcovers hend
  rcases Except.bind_eq_error.mp h with hplace | ⟨placed, hplace, h⟩
  · exact .inl (Assembly.points_of_place hcovers hplace)
  rcases Except.bind_eq_error.mp h with hresolve | ⟨_, -, h⟩
  · exact .inl (Assembly.points_of_resolve hcovers hplace hresolve)
  · cases h

/-- The words of every line that is read are the upper case of what their spans cover, operands
without white space, and every line that assembling blames is blamed on characters of its own. A
span that covers characters starts and stops between characters, inside the text. -/
theorem places_of_assemble (source : String) :
    (∀ lines, SourceLine.ofSource source = .ok lines →
      ∀ line ∈ lines, line.Exact source.toList) ∧
    (∀ problem, assemble source = .error problem → ∀ place, problem.place = some place →
      ∃ slice, place.Covers source.toList slice) ∧
    ∀ (place : Place) (slice : List Char), place.Covers source.toList slice →
      (⟨place.span.offset⟩ : String.Pos.Raw).IsValid source ∧
        (⟨place.span.stop⟩ : String.Pos.Raw).IsValid source ∧
        place.span.stop ≤ source.utf8ByteSize := by
  refine ⟨fun lines => SourceLine.exact_of_ofSource, ?_, fun place slice => Place.Covers.isValid⟩
  intro problem hproblem place hplace
  rcases assemble_blame hproblem with ⟨other, slice, hother, hcovers⟩ | rfl
  · rw [hplace] at hother
    cases hother
    exact ⟨slice, hcovers⟩
  · cases hplace

/-- White space of several bytes, a space inside an operand, a comment and carriage returns; the
branch on the second line names no label. -/
theorem places_of_assemble_wide :
    let source := "\u3000Start:\u00A0 lda  #$1 0 ;\u00FC\x0D\n\u2003bra nowhere\x0D\nEND"
    ∃ lines problem, SourceLine.ofSource source = .ok lines ∧
      lines.map SourceLine.label = [some ⟨"START", 3, 5⟩, none, none] ∧
      assemble source = .error problem ∧ problem.place = some ⟨1, 31, 11⟩ ∧
      (∀ line ∈ lines, line.Exact source.toList) ∧
      (∃ slice, Place.Covers ⟨1, 31, 11⟩ source.toList slice) ∧
      (31 + 11 ≤ source.utf8ByteSize) := by
  intro source
  obtain ⟨hexact, hblame, hvalid⟩ := places_of_assemble source
  obtain ⟨lines, hlines, hlabels⟩ := Except.exists_of_any (x := SourceLine.ofSource source)
    (q := fun lines => lines.map SourceLine.label == [some ⟨"START", 3, 5⟩, none, none])
    (by decide +kernel)
  obtain ⟨problem, hproblem, hplace⟩ :
      ∃ problem, assemble source = .error problem ∧ problem.place = some ⟨1, 31, 11⟩ :=
    ⟨⟨.undeclaredLabel "NOWHERE" (.branch .always), some ⟨1, 31, 11⟩⟩, by decide +kernel, rfl⟩
  obtain ⟨slice, hcovers⟩ := hblame problem hproblem _ hplace
  exact ⟨lines, problem, hlines, by simpa using hlabels, hproblem, hplace, hexact lines hlines,
    ⟨slice, hcovers⟩, (hvalid _ slice hcovers).2.2⟩

end Teach6809
