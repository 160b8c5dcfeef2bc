import Mathlib.Data.List.Forall2
import Teach6809.Proofs.SourceLine.Spelling

/-!
# The canonical spelling

Of all the ways to spell a line, one has upper case, one space before the statement, one before the
operand, and nothing else: `Wording.text`. A text says what its lines say (`Spelled`); printing the
lines in their canonical spelling gives a text that says the same.
-/

namespace Teach6809

open Text

/-! ## Lines -/

namespace Wording

/-- The label of a line with its colon. -/
def labelText (w : Wording) : List Char :=
  match w.label with
  | some name => name ++ [':']
  | none => []

/-- The mnemonic and operand of a line, with a space between them. -/
def statementText (w : Wording) : List Char :=
  match w.statement with
  | some (mnemonic, some operand) => mnemonic ++ ' ' :: operand
  | some (mnemonic, none) => mnemonic
  | none => []

/-- The canonical spelling of a line. -/
def text (w : Wording) : List Char := w.labelText ++ ' ' :: w.statementText

variable {label statement : List Char} {w : Wording}

theorem spells_labelText (h : SpellsLabel label w.label) :
    SpellsLabel w.labelText w.label ∧ '\n' ∉ w.labelText := by
  unfold labelText
  generalize w.label = name at h
  cases h with
  | absent => exact ⟨.absent, List.not_mem_nil⟩
  | @present before name after hbefore hname hafter =>
    refine ⟨?_, fun hmem => ?_⟩
    · have hlabel := @SpellsLabel.present [] (upper name) [] rfl (by rwa [upper_upper]) rfl
      rwa [upper_upper, List.nil_append, List.append_nil] at hlabel
    · rcases List.mem_append.mp hmem with hmem | hmem
      · exact absurd (SourceLine.of_isLabelName hname hmem).1 (by decide)
      · exact absurd hmem (by decide)

/-- The canonical statement can be put behind any white space, or none. -/
theorem spells_statementText (space : List Char) (hspace : allBlank space = true)
    (h : SpellsStatement statement w.statement) :
    SpellsStatement (space ++ w.statementText) w.statement := by
  unfold statementText
  generalize w.statement = said at h
  cases h with
  | absent =>
    rw [List.append_nil]
    exact .absent hspace
  | @present gap word rest operand hgap hne hword hrest =>
    -- A text in capitals is its own spelling, as capitals stay what they are.
    have hspelled : ∀ rest, SpellsOperand rest operand →
        SpellsStatement (space ++ (upper word ++ rest)) (some (upper word, operand)) := by
      intro rest hrest
      have hupper := isBlank_of_mem_upper hword
      have hspells := @SpellsStatement.present space (upper word) rest operand hspace
        (by rwa [Ne, upper_eq_nil]) hupper hrest
      rwa [upper_upper, List.append_assoc] at hspells
    cases hrest with
    | absent =>
      have hspells := hspelled [] (.absent rfl)
      rwa [List.append_nil] at hspells
    | @present c text hc htext =>
      -- Neither capitals nor the white space taken out make a text blank.
      have hblank : allBlank (upper (squeeze text)) = false := by
        rw [allBlank_upper, Bool.eq_false_iff, Ne, ← squeeze_eq_nil, squeeze_squeeze,
          squeeze_eq_nil, htext]
        decide
      have hoperand := @SpellsOperand.present ' ' (upper (squeeze text)) rfl hblank
      rw [squeeze_upper, squeeze_squeeze, upper_upper] at hoperand
      exact hspelled _ hoperand

/-- A character of the canonical spelling is the space it puts in, or comes from the line. -/
theorem mem_statementText (h : SpellsStatement statement w.statement) {c : Char}
    (hc : c ∈ w.statementText) : c = ' ' ∨ isBlank c = false ∧ c ∈ upper statement := by
  unfold statementText at hc
  generalize w.statement = said at h hc
  cases h with
  | absent => cases hc
  | @present gap word rest operand hgap hne hword hrest =>
    rw [upper_append, upper_append, List.mem_append, List.mem_append]
    have hmnemonic : c ∈ upper word → isBlank c = false := isBlank_of_mem_upper hword c
    cases hrest with
    | absent => exact .inr ⟨hmnemonic hc, .inl (.inr hc)⟩
    | @present space text hspace htext =>
      rcases List.mem_append.mp hc with hc | hc
      · exact .inr ⟨hmnemonic hc, .inl (.inr hc)⟩
      · rcases List.mem_cons.mp hc with hc | hc
        · exact .inl hc
        · rw [← squeeze_upper, mem_squeeze] at hc
          exact .inr ⟨hc.2, .inr (List.mem_cons_of_mem _ hc.1)⟩

/-- A line says what its canonical spelling says, which is on one line. -/
theorem spells_text {line : List Char} (h : Spells line w) : Spells w.text w ∧ '\n' ∉ w.text := by
  obtain ⟨hlabel, hstatement, hcolon, hsemicolon, -⟩ := h
  rename_i label statement comment
  obtain ⟨hlabelText, hlabelFeed⟩ := spells_labelText hlabel
  have hchars : ∀ c ∈ ' ' :: w.statementText,
      c = ' ' ∨ isBlank c = false ∧ c ∈ upper statement := by
    intro c hc
    rcases List.mem_cons.mp hc with hc | hc
    · exact .inl hc
    · exact mem_statementText hstatement hc
  -- The marks of a line are not in its statement, so not in the canonical one either.
  have hmark : ∀ mark : Char, mark.toNat < 65 → mark ≠ ' ' → mark ∉ statement →
      mark ∉ ' ' :: w.statementText := by
    intro mark hlow hspace hmark hmem
    rcases hchars mark hmem with hmem | ⟨-, hmem⟩
    · exact hspace hmem
    · exact hmark ((mem_upper hlow).mp hmem)
  refine ⟨?_, fun hmem => ?_⟩
  · have hspells : Spells (w.labelText ++ ' ' :: w.statementText ++ []) w :=
      .line hlabelText (spells_statementText [' '] rfl hstatement)
        (fun h => hmark ':' (by decide) (by decide) (hcolon h))
        (hmark ';' (by decide) (by decide) hsemicolon) (fun c hc => nomatch hc)
    rwa [List.append_nil] at hspells
  · rcases List.mem_append.mp hmem with hmem | hmem
    · exact hlabelFeed hmem
    · rcases hchars _ hmem with hmem | ⟨hblank, -⟩
      · exact absurd hmem (by decide)
      · exact absurd hblank (by decide)

end Wording

/-! ## Texts -/

/-- The lines of a text say this. -/
def Spelled (source : String) (said : List Wording) : Prop :=
  List.Forall₂ Spells (terminated (· == '\n') source.toList) said

/-- Two texts say the same line by line. -/
def Respelled (source other : String) : Prop :=
  ∃ said, Spelled source said ∧ Spelled other said

/-- A text can be changed line by line, as far as the lines stay alike. -/
theorem respelled_of_alike {source other : String} {said : List Wording}
    (h : Spelled source said)
    (halike : List.Forall₂ Alike (terminated (· == '\n') source.toList)
      (terminated (· == '\n') other.toList)) : Respelled source other := by
  refine ⟨said, h, ?_⟩
  unfold Spelled at h ⊢
  generalize terminated (· == '\n') source.toList = texts at h halike
  generalize terminated (· == '\n') other.toList = others at halike ⊢
  induction halike generalizing said with
  | nil => exact h
  | cons hline _ ih =>
    cases h with
    | cons hspells hrest => exact .cons (hline.spells_iff.mp hspells) (ih hrest)

/-- The canonical spelling of lines, each with a line feed. -/
def Wording.joined (said : List Wording) : String :=
  String.ofList ((said.map text).flatMap fun line => line ++ ['\n'])

namespace SourceLine

/-- Carriage returns at the end of a line are white space, so they need not be dropped first. -/
theorem spells_iff_dropEndWhile (text : List Char) (w : Wording) :
    Spells (dropEndWhile (· == '\r') text) w ↔ Spells text w := by
  obtain ⟨after, hafter, hsplit⟩ := exists_dropEndWhile (· == '\r') text
  have hblank : allBlank after = true := by
    refine allBlank_iff.mpr fun c hc => ?_
    rw [beq_iff_eq.mp (hafter c hc)]
    decide
  conv => rhs; rw [hsplit]
  exact (Spells.append_blank_iff hblank).symm

theorem readAll_iff (index offset : Nat) (texts : List (List Char)) (said : List Wording) :
    List.Forall₂ Spells texts said ↔
      ∃ lines, readAll index offset texts = .ok lines ∧ lines.map wording = said := by
  induction texts generalizing index offset said with
  | nil =>
    rw [List.forall₂_nil_left_iff]
    constructor
    · rintro rfl
      exact ⟨[], rfl, rfl⟩
    · rintro ⟨lines, hlines, rfl⟩
      cases hlines
      rfl
  | cons text rest ih =>
    rw [List.forall₂_cons_left_iff, readAll]
    constructor
    · rintro ⟨w, others, hspells, hothers, rfl⟩
      -- A line is read without the marks at its end, which are white space to its spelling.
      rw [← spells_iff_dropEndWhile] at hspells
      obtain ⟨line, hline, rfl⟩ := (spells_iff index offset _ w).mp hspells
      obtain ⟨lines, hlines, rfl⟩ :=
        (ih (index + 1) (offset + utf8Length text + 1) others).mp hothers
      refine ⟨line :: lines, ?_, rfl⟩
      rw [hline, Except.bind_eq_ok]
      exact ⟨line, rfl, by rw [hlines]; rfl⟩
    · rintro ⟨lines, hread, rfl⟩
      obtain ⟨line, hline, hread⟩ := Except.bind_eq_ok.mp hread
      obtain ⟨others, hothers, hread⟩ := Except.bind_eq_ok.mp hread
      cases hread
      refine ⟨line.wording, others.map wording, ?_, (ih _ _ _).mpr ⟨others, hothers, rfl⟩, rfl⟩
      exact (spells_iff_dropEndWhile _ _).mp ((spells_iff index offset _ _).mpr ⟨line, hline, rfl⟩)

/-- A text that says something is read as what it says. -/
theorem spelled_iff (source : String) (said : List Wording) :
    Spelled source said ↔ ∃ lines, ofSource source = .ok lines ∧ lines.map wording = said :=
  readAll_iff 0 0 _ said

end SourceLine

/-- Printing what a text says gives a text that says it. -/
theorem spelled_joined {source : String} {said : List Wording} (h : Spelled source said) :
    Spelled (Wording.joined said) said := by
  have hspells : ∀ w ∈ said, Spells w.text w ∧ '\n' ∉ w.text :=
    ((List.forall₂_and_left _ _).mp
      (h.flip.imp fun w line hline => ⟨Wording.spells_text hline, hline⟩)).1
  have hlines : terminated (· == '\n') (Wording.joined said).toList = said.map Wording.text := by
    rw [Wording.joined, String.toList_ofList]
    refine terminated_flatMap fun text htext => ?_
    obtain ⟨w, hw, rfl⟩ := List.mem_map.mp htext
    exact (hspells w hw).2
  rw [Spelled, hlines, List.forall₂_map_left_iff, List.forall₂_same]
  exact fun w hw => (hspells w hw).1

end Teach6809
