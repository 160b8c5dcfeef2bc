import Teach6809.Machine.Evaluate
import Teach6809.Proofs.Assembly.Canonical
import Teach6809.Proofs.Assembly.Passes
import Teach6809.Proofs.Operand.Colon

/-!
# Instructions typed again

An instruction is shown in upper case and without white space inside its operand, as it was read.
Behind its label it could have had a colon; but then its operand could not have been read. So the
shown text is a line of its own. Main statement: with the labels of its program, the text of an
instruction is read as this instruction.
-/

namespace Teach6809

open Text

/-! ## Labels -/

namespace SourceLine

/-- Every line of a text is spelled somehow. -/
theorem exists_spells_of_ofSource {source : String} {lines : List SourceLine}
    (h : ofSource source = .ok lines) : ∀ line ∈ lines, ∃ text, Spells text line.wording := by
  have hspelled : Spelled source (lines.map wording) :=
    (spelled_iff source _).mpr ⟨lines, h, rfl⟩
  have hwordings : ∀ w ∈ lines.map wording, ∃ text, Spells text w :=
    ((List.forall₂_and_left _ _).mp
      (hspelled.flip.imp fun w text htext => ⟨⟨text, htext⟩, htext⟩)).1
  exact fun line hline => hwordings _ (List.mem_map_of_mem hline)

theorem isLabelName_of_spells {line : SourceLine} {text : List Char}
    (h : Spells text line.wording) {label : Token} (hlabel : line.label = some label) :
    isLabelName label.text.toList = true := by
  obtain ⟨hspells, -⟩ := h
  rw [wording, hlabel] at hspells
  generalize hname : Option.map Token.chars (some label) = name at hspells
  cases hspells with
  | absent => cases hname
  | present hbefore hvalid hafter =>
    rw [← Option.some.inj hname] at hvalid
    exact hvalid

end SourceLine

namespace LabelTable

variable {labels table : LabelTable}

/-- A label that is declared after adding one is that one or was declared before. -/
theorem declares_add {name other : String} {line : Nat}
    (h : (labels.add other line).declares name = true) :
    labels.declares name = true ∨ name = other := by
  unfold declares line? at h ⊢
  rw [add, List.lookup_append, Option.isSome_or, Bool.or_eq_true] at h
  refine h.imp_right fun hadded => ?_
  rw [List.lookup_cons, List.lookup_nil] at hadded
  split at hadded
  · rename_i hname
    exact eq_of_beq hname
  · cases hadded

theorem wellNamed_of_collect {lines : List SourceLine}
    (hlines : ∀ line ∈ lines, ∀ label, line.label = some label →
      SourceLine.isLabelName label.text.toList = true)
    (hlabels : labels.WellNamed) (h : labels.collect lines = .ok table) : table.WellNamed := by
  induction lines generalizing labels with
  | nil =>
    cases h
    exact hlabels
  | cons line rest ih =>
    have hrest := fun other hother => hlines other (List.mem_cons_of_mem line hother)
    rw [collect] at h
    split at h
    · exact ih hrest hlabels h
    · rename_i label hlabel
      split at h
      · cases h
      · -- The label added to the table was checked when its line was read.
        refine ih hrest (fun name hname => ?_) h
        rcases declares_add hname with hdeclared | rfl
        · exact hlabels name hdeclared
        · exact hlines line List.mem_cons_self label hlabel

theorem wellNamed_of_ofLines {source : String} {lines : List SourceLine}
    (hlines : SourceLine.ofSource source = .ok lines) (h : ofLines lines = .ok table) :
    table.WellNamed := by
  refine wellNamed_of_collect (fun line hline label hlabel => ?_) (fun name hname => ?_) h
  · obtain ⟨text, htext⟩ := SourceLine.exists_spells_of_ofSource hlines line hline
    exact SourceLine.isLabelName_of_spells htext hlabel
  · cases hname

end LabelTable

/-! ## Statements -/

namespace Assembly

/-- A checked instruction was written in one of the lines. -/
theorem exists_statement_of_checkLines {labels : LabelTable} {lines : List SourceLine}
    {instructions : List LocatedInstruction} (h : checkLines labels lines = .ok instructions) :
    ∀ i ∈ instructions, ∃ line ∈ lines, ∃ s, line.statement = some s ∧
      Instruction.ofStatement? s = some i.instruction ∧
      i.instruction.check labels = .ok i.toCheckedInstruction := by
  rw [checkLines_eq] at h
  obtain ⟨rfl, -⟩ := Except.mapM_eq_ok h
  intro i hi
  obtain ⟨⟨n, s⟩, hitem, hcheck⟩ := List.mem_filterMap.mp hi
  obtain ⟨line, hline, hs, -⟩ := mem_statements.mp hitem
  obtain ⟨-, -, hchecked⟩ := instruction_of_checkStatement (Except.toOption_eq_some.mp hcheck)
  exact ⟨line, hline, s, hs, hchecked⟩

/-- The instructions of a program were checked, placed and resolved, and have stayed the same. -/
theorem exists_checkLines_of_assemble {source : String} {p : Program}
    (h : assemble source = .ok p) :
    ∃ lines, SourceLine.ofSource source = .ok lines ∧ LabelTable.ofLines lines = .ok p.labels ∧
      checkLines p.labels lines = .ok (p.lines.map fun i => i.toLocatedInstruction) := by
  unfold assemble at h
  obtain ⟨lines, hlines, h⟩ := Except.bind_eq_ok.mp h
  obtain ⟨labels, hlabels, h⟩ := Except.bind_eq_ok.mp h
  obtain ⟨instructions, hcheck, h⟩ := Except.bind_eq_ok.mp h
  obtain ⟨⟨⟩, -, h⟩ := Except.bind_eq_ok.mp h
  obtain ⟨placed, hplace, h⟩ := Except.bind_eq_ok.mp h
  obtain ⟨resolved, hresolve, h⟩ := Except.bind_eq_ok.mp h
  cases h
  refine ⟨lines, hlines, hlabels, ?_⟩
  -- The passes after the check add addresses and bytes and leave the instructions alone.
  have hbare := (resolve_eq_ok hresolve).1
  have hlocated := congrArg (List.map fun i : PlacedInstruction => i.toLocatedInstruction) hbare
  rw [List.map_map, List.map_map] at hlocated
  have hsame : resolved.map (fun i => i.toLocatedInstruction) =
      placed.map fun i => i.toLocatedInstruction := hlocated
  rw [hcheck, ← (place_eq_ok hplace (by decide)).1, ← hsame]

end Assembly

/-! ## Typing again -/

/-- Instructions of statements that say the same are the same. -/
theorem Instruction.ofStatement?_of_wording {s other : Statement} (h : s.wording = other.wording) :
    ofStatement? s = ofStatement? other := by
  obtain ⟨hmnemonic, hoperand⟩ := Prod.mk.inj h
  have hname : s.mnemonic.text = other.mnemonic.text := String.toList_inj.mp hmnemonic
  have hwritten : s.operand.map Token.text = other.operand.map Token.text := by
    have htext : ∀ o : Option Token,
        o.map Token.text = (o.map Token.chars).map String.ofList := by
      intro o
      rw [Option.map_map]
      exact congrArg (fun f => o.map f) (funext fun t => String.ofList_toList.symm)
    rw [htext, htext, hoperand]
  unfold ofStatement?
  rw [hname, hwritten]

theorem Instruction.colon_notMem_text {i : Instruction}
    (h : ∀ operand, i.operand = some operand → ':' ∉ operand.toList) : ':' ∉ i.text.toList := by
  have hname : ':' ∉ i.mnemonic.name.toList := by
    have heach : ∀ m ∈ Mnemonic.all, ':' ∉ m.name.toList := by decide +kernel
    exact heach _ i.mnemonic.mem_all
  unfold text
  split
  · rename_i operand hoperand
    rw [String.toList_append, String.toList_append, List.mem_append, List.mem_append]
    rintro ((hcolon | hcolon) | hcolon)
    · exact hname hcolon
    · exact absurd hcolon (by decide)
    · exact h operand hoperand hcolon
  · exact hname

/-- The text of a known instruction says what its statement says, if its operand has no colon. -/
theorem Instruction.spells_text {s : Statement} {i : Instruction} {statement : List Char}
    (hi : ofStatement? s = some i) (hspells : SpellsStatement statement (some s.wording))
    (hsemicolon : ';' ∉ statement)
    (hcolon : ∀ operand, i.operand = some operand → ':' ∉ operand.toList) :
    Spells i.text.toList ⟨none, some s.wording⟩ := by
  let w : Wording := ⟨none, some s.wording⟩
  have htext : i.text.toList = w.statementText := by
    rw [toList_text hi]
    show _ = Wording.statementText ⟨none, some (s.mnemonic.chars, s.operand.map Token.chars)⟩
    cases s.operand <;> rfl
  have hstatement : SpellsStatement ([] ++ w.statementText) w.statement :=
    Wording.spells_statementText [] rfl hspells
  have hcolon : ':' ∉ w.statementText := by
    rw [← htext]
    exact colon_notMem_text hcolon
  -- The text has the characters of the statement and at most a space more.
  have hsemicolon : ';' ∉ w.statementText := by
    intro hmem
    rcases Wording.mem_statementText (w := w) hspells hmem with hspace | ⟨-, hmem⟩
    · exact absurd hspace (by decide)
    · exact hsemicolon ((mem_upper (by decide)).mp hmem)
  have hline : Spells ([] ++ ([] ++ w.statementText) ++ []) w :=
    .line .absent hstatement (fun _ => hcolon) hsemicolon fun c hc => nomatch hc
  rwa [List.append_nil, List.nil_append, List.nil_append, ← htext] at hline

/-- Typed by hand, the text of an instruction of a program is read as this instruction. -/
theorem readTyped_text {source : String} {p : Program} (h : assemble source = .ok p)
    {i : PlacedInstruction} (hi : i ∈ p.lines) :
    Machine.readTyped p.labels i.text = .ok i.toCheckedInstruction := by
  obtain ⟨lines, hlines, hlabels, hcheck⟩ := Assembly.exists_checkLines_of_assemble h
  obtain ⟨line, hline, s, hs, hknown, hchecked⟩ := Assembly.exists_statement_of_checkLines hcheck
    i.toLocatedInstruction (List.mem_map_of_mem hi)
  obtain ⟨text, htext⟩ := SourceLine.exists_spells_of_ofSource hlines line hline
  obtain ⟨-, hspells, -, hsemicolon, -⟩ := htext
  -- Printed in its spelling, the statement of the line is read as that statement again.
  rw [SourceLine.wording, hs] at hspells
  have htyped := Instruction.spells_text hknown hspells hsemicolon fun operand hoperand =>
    Instruction.colon_notMem_of_check hchecked
      (LabelTable.wellNamed_of_ofLines hlines hlabels) hoperand
  obtain ⟨typed, hread, hwording⟩ := (SourceLine.spells_iff 0 0 _ _).mp htyped
  obtain ⟨other, hother, hsame⟩ := Option.map_eq_some_iff.mp (congrArg Wording.statement hwording)
  unfold Machine.readTyped
  rw [PlacedInstruction.text, hread, Except.bind_eq_ok]
  refine ⟨typed, rfl, ?_⟩
  simp only [hother, Instruction.ofStatement?_of_wording hsame, hknown, hchecked]
  rfl

end Teach6809
