import Teach6809.Proofs.Assembly.Spans
import Teach6809.Proofs.SourceLine.Canonical

/-!
# The canonical text of a program

Two texts that say the same line by line make the same program but for spans, or fail for the same
cause on the same line. Among the texts that say what a given one says, the canonical text shows
every line as its label and its instruction. Main statement: the canonical text of a text that
assembles is its own canonical text and makes the same program.
-/

namespace Teach6809

/-! ## Canonical texts -/

namespace SourceLine

/-- The label of a line with a colon, if it has one. -/
def labelText (line : SourceLine) : String :=
  match line.label with
  | some label => label.text ++ ":"
  | none => ""

/-- The instruction of a line as it is shown, if it has one. -/
def instructionText (line : SourceLine) : String :=
  match line.statement.bind Instruction.ofStatement? with
  | some i => i.text
  | none => ""

/-- A line as its label, a space and its instruction. -/
def canonical (line : SourceLine) : String :=
  line.labelText ++ " " ++ line.instructionText ++ "\n"

end SourceLine

/-- The lines of a source text as their labels and instructions. -/
def canonicalText (source : String) : Except Diagnostic String :=
  (SourceLine.ofSource source).map fun lines => String.join (lines.map SourceLine.canonical)

/-- A known instruction is shown as its mnemonic and operand are written. -/
theorem Instruction.toList_text {s : Statement} {i : Instruction} (h : ofStatement? s = some i) :
    i.text.toList = match s.operand with
      | some operand => s.mnemonic.chars ++ ' ' :: operand.chars
      | none => s.mnemonic.chars := by
  obtain ⟨mnemonic, hmnemonic, h⟩ := Option.bind_eq_some_iff.mp h
  cases h
  unfold text
  dsimp only
  rw [Mnemonic.name_of_ofName? hmnemonic]
  cases s.operand with
  | none => rfl
  | some operand =>
    rw [Option.map_some]
    dsimp only
    rw [String.toList_append, String.toList_append, List.append_assoc]
    rfl

namespace SourceLine

theorem toList_labelText (line : SourceLine) :
    line.labelText.toList = line.wording.labelText := by
  unfold labelText Wording.labelText wording
  cases line.label with
  | none => rfl
  | some label => exact String.toList_append

theorem toList_instructionText {line : SourceLine}
    (h : ∀ s, line.statement = some s → ∃ i, Instruction.ofStatement? s = some i) :
    line.instructionText.toList = line.wording.statementText := by
  unfold instructionText Wording.statementText wording
  cases hstatement : line.statement with
  | none => rfl
  | some s =>
    obtain ⟨i, hi⟩ := h s hstatement
    rw [Option.bind_some, hi]
    dsimp only
    rw [Instruction.toList_text hi, Option.map_some, Statement.wording]
    cases s.operand <;> rfl

/-- The canonical line is the canonical spelling of what the line says. -/
theorem toList_canonical {line : SourceLine}
    (h : ∀ s, line.statement = some s → ∃ i, Instruction.ofStatement? s = some i) :
    line.canonical.toList = line.wording.text ++ ['\n'] := by
  unfold canonical
  rw [String.toList_append, String.toList_append, String.toList_append, line.toList_labelText,
    toList_instructionText h, Wording.text, show " ".toList = [' '] from rfl,
    List.append_assoc _ [' '], List.singleton_append]
  rfl

/-- The line with the given number that says this, without spans. -/
def ofWording (index : Nat) (w : Wording) : SourceLine where
  index
  label := w.label.map fun label => ⟨String.ofList label, .zero⟩
  statement := w.statement.map fun said =>
    ⟨⟨String.ofList said.1, .zero⟩, said.2.map fun operand => ⟨String.ofList operand, .zero⟩⟩

/-- Without spans there is nothing in a line but its number and what it says. -/
theorem withoutSpans_eq (line : SourceLine) :
    line.withoutSpans = ofWording line.index line.wording := by
  have htoken : ∀ t : Token, (⟨String.ofList t.chars, .zero⟩ : Token) = t.withoutSpan := by
    intro t
    rw [Token.chars, String.ofList_toList]
    rfl
  unfold withoutSpans ofWording wording Statement.withoutSpans Statement.wording
  simp only [Option.map_map, Function.comp_def, htoken]

/-- Numbered lines that say the same agree but for their spans. -/
theorem withoutSpans_eq_of_wording {source other : String} {lines others : List SourceLine}
    (hlines : ofSource source = .ok lines) (hothers : ofSource other = .ok others)
    (h : lines.map wording = others.map wording) :
    lines.map withoutSpans = others.map withoutSpans := by
  have hlength : lines.length = others.length := by
    rw [← List.length_map wording, h, List.length_map]
  -- Both texts number their lines from zero.
  have hindex : lines.map index = others.map index := by
    rw [index_of_readAll hlines, index_of_readAll hothers, hlength]
  have hzip : ∀ lines : List SourceLine,
      lines.map withoutSpans = List.zipWith ofWording (lines.map index) (lines.map wording) := by
    intro lines
    rw [List.zipWith_map, List.zipWith_self]
    exact List.map_congr_left fun line _ => line.withoutSpans_eq
  rw [hzip, hzip, hindex, h]

end SourceLine

/-! ## Other spellings -/

/-- Texts that say the same make the same program but for spans, or fail for the same cause. -/
theorem assemble_respelled {source other : String} (h : Respelled source other) :
    Assembly.erase Program.withoutSpans (assemble source) =
      Assembly.erase Program.withoutSpans (assemble other) := by
  obtain ⟨said, hsource, hother⟩ := h
  obtain ⟨lines, hlines, rfl⟩ := (SourceLine.spelled_iff source said).mp hsource
  obtain ⟨others, hothers, hsame⟩ := (SourceLine.spelled_iff other _).mp hother
  have hwithout := SourceLine.withoutSpans_eq_of_wording hlines hothers hsame.symm
  rw [Assembly.assemble_eq_ofLines, Assembly.assemble_eq_ofLines, hlines, hothers]
  show Assembly.erase _ (Assembly.ofLines lines) = Assembly.erase _ (Assembly.ofLines others)
  rw [← Assembly.ofLines_withoutSpans, ← Assembly.ofLines_withoutSpans, hwithout]

/-- Checked lines hold instructions or nothing. -/
theorem Assembly.ofStatement?_of_checkLines {labels : LabelTable} {lines : List SourceLine}
    {instructions : List LocatedInstruction} (h : checkLines labels lines = .ok instructions) :
    ∀ line ∈ lines, ∀ s, line.statement = some s → ∃ i, Instruction.ofStatement? s = some i := by
  induction lines generalizing instructions with
  | nil => exact fun line hline => absurd hline List.not_mem_nil
  | cons first rest ih =>
    rw [checkLines] at h
    intro line hline s hs
    split at h
    · rename_i hnone
      rcases List.mem_cons.mp hline with rfl | hline
      · rw [hnone] at hs
        cases hs
      · exact ih h line hline s hs
    · rename_i statement hstatement
      obtain ⟨checked, hchecked, h⟩ := Except.bind_eq_ok.mp h
      obtain ⟨others, hothers, -⟩ := Except.bind_eq_ok.mp h
      rcases List.mem_cons.mp hline with rfl | hline
      · -- A line that passed was made an instruction first.
        rw [hstatement] at hs
        cases hs
        unfold checkStatement at hchecked
        split at hchecked
        · cases hchecked
        · rename_i i hi
          exact ⟨i, hi⟩
      · exact ih hothers line hline s hs

/-- The canonical text of a text that assembles spells what the text says. -/
theorem canonicalText_of_assemble {source : String} {p : Program} {said : List Wording}
    (h : assemble source = .ok p) (hsaid : Spelled source said) :
    canonicalText source = .ok (Wording.joined said) := by
  obtain ⟨lines, hlines, rfl⟩ := (SourceLine.spelled_iff source said).mp hsaid
  rw [Assembly.assemble_eq_ofLines, hlines] at h
  obtain ⟨labels, -, h⟩ := Except.bind_eq_ok.mp (show Assembly.ofLines lines = .ok p from h)
  obtain ⟨instructions, hcheck, -⟩ := Except.bind_eq_ok.mp h
  have hknown := Assembly.ofStatement?_of_checkLines hcheck
  rw [canonicalText, hlines]
  refine congrArg Except.ok (String.toList_inj.mp ?_)
  rw [String.toList_join, Wording.joined, String.toList_ofList, List.map_map, List.flatMap_map,
    List.flatMap_map]
  exact List.flatMap_congr fun line hline => SourceLine.toList_canonical (hknown line hline)

/-- Every text that assembles has a canonical text, which says the same and is its own canonical
text. Every text that says the same has the same canonical text, and makes the same program but for
spans. Texts say the same if their lines differ only in the case of letters, in comments, or in
white space at their ends. -/
theorem canonical_of_assemble {source : String} {p : Program} (h : assemble source = .ok p) :
    ∃ text, canonicalText source = .ok text ∧ canonicalText text = .ok text ∧
      (∃ q, assemble text = .ok q ∧ q.withoutSpans = p.withoutSpans) ∧
      Respelled source text ∧
      (∀ other, Respelled source other → canonicalText other = .ok text ∧
        ∃ q, assemble other = .ok q ∧ q.withoutSpans = p.withoutSpans) ∧
      ∀ other : String,
        List.Forall₂ Alike (Text.terminated (· == '\n') source.toList)
          (Text.terminated (· == '\n') other.toList) → Respelled source other := by
  have hmade : ∀ other, Respelled source other →
      ∃ q, assemble other = .ok q ∧ q.withoutSpans = p.withoutSpans := by
    intro other hother
    have hsame := assemble_respelled hother
    rw [h] at hsame
    exact Assembly.erase_eq_ok.mp hsame.symm
  obtain ⟨lines, hlines, -⟩ := Except.bind_eq_ok.mp (Assembly.assemble_eq_ofLines source ▸ h)
  have hsaid : Spelled source (lines.map SourceLine.wording) :=
    (SourceLine.spelled_iff source _).mpr ⟨lines, hlines, rfl⟩
  have hcanonical : Spelled (Wording.joined (lines.map SourceLine.wording))
    (lines.map SourceLine.wording) := spelled_joined hsaid
  have hrespelled : Respelled source _ := ⟨_, hsaid, hcanonical⟩
  obtain ⟨q, hq, hsame⟩ := hmade _ hrespelled
  refine ⟨_, canonicalText_of_assemble h hsaid, canonicalText_of_assemble hq hcanonical,
    ⟨q, hq, hsame⟩, hrespelled, fun other hother => ⟨?_, hmade other hother⟩,
    fun other => respelled_of_alike hsaid⟩
  -- What a text says is one thing only, so the other text says what the source does.
  obtain ⟨r, hr, -⟩ := hmade other hother
  obtain ⟨said, hsource, hother⟩ := hother
  obtain ⟨same, hsame, rfl⟩ := (SourceLine.spelled_iff source said).mp hsource
  rw [hlines] at hsame
  cases hsame
  exact canonicalText_of_assemble hr hother

/-- Letters of both cases, comments, carriage returns and white space everywhere. -/
theorem canonical_of_assemble_loop :
    let source := "start:\tlda  # $1f ; init: A\r\n\r\n Loop :Deca;\n  bne lo op\nEND ; done"
    let text := "START: LDA #$1F\n \nLOOP: DECA\n BNE LOOP\n END\n"
    ∃ p, assemble source = .ok p ∧ canonicalText source = .ok text ∧ canonicalText text = .ok text ∧
      ∃ q, assemble text = .ok q ∧ q.withoutSpans = p.withoutSpans := by
  intro source text
  obtain ⟨p, hp, -⟩ := Except.exists_of_any (x := assemble source) (q := fun _ => true)
    (by decide +kernel)
  obtain ⟨canonical, hcanonical, hown, hmade, -⟩ := canonical_of_assemble hp
  have htext : canonicalText source = .ok text := Except.toOption_eq_some.mp (by decide +kernel)
  rw [htext] at hcanonical
  cases hcanonical
  exact ⟨p, hp, htext, hown, hmade⟩

end Teach6809
