import Mathlib.Data.List.Induction
import Teach6809.SourceLine
import Teach6809.Proofs.Except
import Teach6809.Proofs.Text.Blank

/-!
# How lines can be spelled

A line says little: a label, a mnemonic and an operand, its `Wording`. The same wording can be
spelled in many ways, with letters of either case, white space around the parts and inside the
operand, and a comment; `Spells` lists them. Main statement: the reader accepts exactly the lines
that spell something, and finds what they say. White space at the end of a line, which includes a
carriage return, makes no difference.
-/

namespace Teach6809

open Text

/-! ## Wordings -/

/-- What a line says, in upper case and without white space. -/
structure Wording where
  label : Option (List Char)
  /-- The mnemonic and the operand. -/
  statement : Option (List Char × Option (List Char))
deriving DecidableEq

/-- The characters of a word. -/
def Token.chars (t : Token) : List Char := t.text.toList

/-- What a statement says. -/
def Statement.wording (s : Statement) : List Char × Option (List Char) :=
  (s.mnemonic.chars, s.operand.map Token.chars)

/-- What a line says. -/
def SourceLine.wording (line : SourceLine) : Wording :=
  ⟨line.label.map Token.chars, line.statement.map Statement.wording⟩

/-! ## Spellings -/

/-- The ways to write the label of a line, if it has one. -/
inductive SpellsLabel : List Char → Option (List Char) → Prop where
  | absent : SpellsLabel [] none
  | present {before name after : List Char} :
    allBlank before = true → SourceLine.isLabelName (upper name) = true → allBlank after = true →
      SpellsLabel (before ++ name ++ after ++ [':']) (some (upper name))

/-- The ways to write what follows a mnemonic. -/
inductive SpellsOperand : List Char → Option (List Char) → Prop where
  | absent {gap : List Char} : allBlank gap = true → SpellsOperand gap none
  | present {gap : Char} {text : List Char} :
    isBlank gap = true → allBlank text = false →
      SpellsOperand (gap :: text) (some (upper (squeeze text)))

/-- The ways to write a mnemonic and its operand, or neither. -/
inductive SpellsStatement : List Char → Option (List Char × Option (List Char)) → Prop where
  | absent {gap : List Char} : allBlank gap = true → SpellsStatement gap none
  | present {gap word rest : List Char} {operand : Option (List Char)} :
    allBlank gap = true → word ≠ [] → (∀ c ∈ word, isBlank c = false) →
      SpellsOperand rest operand →
        SpellsStatement (gap ++ word ++ rest) (some (upper word, operand))

/-- The ways to write a line. Only behind a label can there be a colon in the statement, and a
comment is anything that starts with a semicolon. -/
inductive Spells : List Char → Wording → Prop where
  | line {label statement comment : List Char} {w : Wording} :
    SpellsLabel label w.label → SpellsStatement statement w.statement →
      (w.label = none → ':' ∉ statement) → ';' ∉ statement → (∀ c ∈ comment.head?, c = ';') →
      Spells (label ++ statement ++ comment) w

variable {text rest label statement : List Char} {w : Wording} {name : Option (List Char)}
  {index offset : Nat}

namespace SourceLine

/-! ## Labels -/

/-- The characters of a label are visible and mark nothing. -/
theorem of_isLabelName {name : List Char} (h : isLabelName name = true) {c : Char} (hc : c ∈ name) :
    isBlank c = false ∧ c ≠ ':' ∧ c ≠ ';' := by
  have hrest : isLabelRest c = true := by
    cases name with
    | nil => cases hc
    | cons first rest =>
      rw [isLabelName, Bool.and_eq_true, List.all_eq_true] at h
      rcases List.mem_cons.mp hc with rfl | hc
      · rw [isLabelRest, h.1, Bool.true_or]
      · exact h.2 c hc
  have hrange : 48 ≤ c.toNat ∧ c.toNat ≤ 57 ∨ 65 ≤ c.toNat ∧ c.toNat ≤ 95 := by
    rw [isLabelRest, isLabelStart, Bool.or_eq_true, Bool.or_eq_true, beq_iff_eq] at hrest
    rcases hrest with (hupper | rfl) | hdigit
    · obtain ⟨hlow, hhigh⟩ := of_decide_eq_true hupper
      exact .inr ⟨hlow, Nat.le_trans hhigh (by decide)⟩
    · decide
    · obtain ⟨hlow, hhigh⟩ := Bool.and_eq_true_iff.mp hdigit
      exact .inl ⟨of_decide_eq_true hlow, of_decide_eq_true hhigh⟩
  refine ⟨isBlank_of_visible (by omega) (by omega), ?_, ?_⟩
  · rintro rfl
    revert hrange
    decide
  · rintro rfl
    revert hrange
    decide

/-- Nothing before the colon of a label marks anything. -/
theorem not_mark_of_label {before name after : List Char} (hbefore : allBlank before = true)
    (hname : isLabelName (upper name) = true) (hafter : allBlank after = true) {c : Char}
    (hc : c ∈ before ++ name ++ after) : c ≠ ':' ∧ c ≠ ';' := by
  have hblank : isBlank c = true → c ≠ ':' ∧ c ≠ ';' := by
    intro hc
    constructor
    all_goals
      rintro rfl
      revert hc
      decide
  rcases List.mem_append.mp hc with hc | hc
  · rcases List.mem_append.mp hc with hc | hc
    · exact hblank (allBlank_iff.mp hbefore c hc)
    · obtain ⟨-, hcolon, hsemicolon⟩ := of_isLabelName hname (List.mem_map_of_mem hc)
      refine ⟨?_, ?_⟩
      · rintro rfl
        exact hcolon rfl
      · rintro rfl
        exact hsemicolon rfl
  · exact hblank (allBlank_iff.mp hafter c hc)

/-- Up to the first colon there is a label, with white space around it, or a mistake. -/
theorem readLabel_colon (index offset : Nat) (rest : List Char) {word : List Char}
    (hword : ':' ∉ word) :
    if isLabelName (upper (trim word)) then
      ∃ span code, readLabel index ⟨offset, upper (word ++ ':' :: rest)⟩ =
        .ok (some ⟨String.ofList (upper (trim word)), span⟩, code) ∧ code.text = upper rest
    else ∃ problem, readLabel index ⟨offset, upper (word ++ ':' :: rest)⟩ = .error problem := by
  let line : Stretch := ⟨offset, upper (word ++ ':' :: rest)⟩
  have hcolon : ':' ∈ line.text := (mem_upper (by decide)).mpr (by simp)
  have hname :
      ((line.takeWhile (· != ':')).dropWhile isBlank).trimEnd.text = upper (trim word) := by
    show trim ((upper (word ++ ':' :: rest)).takeWhile (· != ':')) = upper (trim word)
    rw [takeWhile_upper fun c => toUpper_bne c (by decide), takeWhile_bne hword, trim_upper]
  have hcode : (line.dropWhile (· != ':')).tail.text = upper rest := by
    show ((upper (word ++ ':' :: rest)).dropWhile (· != ':')).drop 1 = upper rest
    rw [dropWhile_upper fun c => toUpper_bne c (by decide), dropWhile_bne hword]
    rfl
  unfold readLabel
  rw [if_pos hcolon]
  dsimp only
  rw [hname]
  split
  · exact ⟨_, _, rfl, hcode⟩
  · split <;> exact ⟨_, rfl⟩

/-- A label that is spelled is found, and the rest of the line is left. -/
theorem readLabel_of_spells (index offset : Nat) (h : SpellsLabel label name)
    (hrest : name = none → ':' ∉ rest) :
    ∃ token code, readLabel index ⟨offset, upper (label ++ rest)⟩ = .ok (token, code) ∧
      token.map Token.chars = name ∧ code.text = upper rest := by
  cases h with
  | absent =>
    have hcolon : ':' ∉ upper ([] ++ rest) := fun h => hrest rfl ((mem_upper (by decide)).mp h)
    exact ⟨none, _, by rw [readLabel, if_neg hcolon], rfl, rfl⟩
  | @present before name after hbefore hname hafter =>
    have hvisible : ∀ c ∈ name, isBlank c = false := by
      intro c hc
      rw [← isBlank_toUpper]
      exact (of_isLabelName hname (List.mem_map_of_mem hc)).1
    -- The first colon of the line is the one behind the label.
    have hcolon : ':' ∉ before ++ name ++ after := fun hmem =>
      (not_mark_of_label hbefore hname hafter hmem).1 rfl
    have hne : name ≠ [] := by
      rintro rfl
      cases hname
    have hread := readLabel_colon index offset rest hcolon
    rw [trim_append hbefore hne hvisible hafter, if_pos hname] at hread
    obtain ⟨span, code, hread, hcode⟩ := hread
    refine ⟨some ⟨String.ofList (upper name), span⟩, code, ?_, ?_, hcode⟩
    · rw [List.append_assoc _ [':'], List.singleton_append]
      exact hread
    · exact congrArg some String.toList_ofList

/-- A label that is found is one that was spelled. -/
theorem spells_of_readLabel {token : Option Token} {code : Stretch}
    (h : readLabel index ⟨offset, upper text⟩ = .ok (token, code)) :
    ∃ label rest, text = label ++ rest ∧ SpellsLabel label (token.map Token.chars) ∧
      (token = none → ':' ∉ rest) ∧ code.text = upper rest := by
  by_cases hcolon : ':' ∈ text
  · obtain ⟨word, rest, rfl, hword⟩ := List.eq_append_cons_of_mem hcolon
    have hread := readLabel_colon index offset rest hword
    split at hread
    · rename_i hname
      obtain ⟨span, code, hread, hcode⟩ := hread
      rw [hread] at h
      cases h
      obtain ⟨before, after, hbefore, hafter, hsplit⟩ := exists_trim word
      -- The label is all up to the colon, with the white space around its name.
      refine ⟨word ++ [':'], rest, by simp, ?_, fun h => (nomatch h), hcode⟩
      have hlabel := SpellsLabel.present hbefore hname hafter
      rw [← hsplit] at hlabel
      rwa [Option.map_some, Token.chars, String.toList_ofList]
    · obtain ⟨problem, hread⟩ := hread
      rw [hread] at h
      cases h
  · rw [readLabel, if_neg fun h => hcolon ((mem_upper (by decide)).mp h)] at h
    cases h
    exact ⟨[], text, rfl, .absent, fun _ => hcolon, rfl⟩

/-! ## Statements -/

/-- What is said by a line without its comment and label. -/
theorem wording_readStatement (offset : Nat) (text : List Char) :
    (readStatement ⟨offset, upper text⟩).map Statement.wording =
      let start := text.dropWhile isBlank
      let rest := start.dropWhile isVisible
      if allBlank text then none
      else some (upper (start.takeWhile isVisible),
        if allBlank rest then none else some (upper (squeeze rest))) := by
  have hstart : (upper text).dropWhile isBlank = upper (text.dropWhile isBlank) :=
    dropWhile_upper isBlank_toUpper
  have hword : (upper (text.dropWhile isBlank)).takeWhile isVisible =
      upper ((text.dropWhile isBlank).takeWhile isVisible) := takeWhile_upper isVisible_toUpper
  have hrest : (upper (text.dropWhile isBlank)).dropWhile isVisible =
      upper ((text.dropWhile isBlank).dropWhile isVisible) := dropWhile_upper isVisible_toUpper
  unfold readStatement
  simp only [show (fun c => !isBlank c) = isVisible from rfl, Stretch.dropWhile, Stretch.takeWhile,
    hstart, hword, hrest, List.isEmpty_iff, upper_eq_nil, dropWhile_isBlank_eq_nil, allBlank_upper,
    squeeze_dropWhile, squeeze_upper]
  split
  · rfl
  · rw [Option.map_some, Statement.wording, Token.chars, String.toList_ofList]
    split
    · rfl
    · rw [Option.map_some, Token.chars, String.toList_ofList]

/-- What can follow a mnemonic is nothing, or white space and then anything. -/
theorem spellsOperand_iff {operand : Option (List Char)} :
    SpellsOperand rest operand ↔ (∀ c ∈ rest.head?, isBlank c = true) ∧
      operand = if allBlank rest then none else some (upper (squeeze rest)) := by
  constructor
  · rintro (hgap | ⟨hgap, htext⟩)
    · exact ⟨fun c hc => allBlank_iff.mp hgap c (List.mem_of_mem_head? hc), (if_pos hgap).symm⟩
    · refine ⟨fun c hc => ?_, ?_⟩
      · cases hc
        exact hgap
      · rw [allBlank_cons hgap, squeeze_cons hgap, htext]
        rfl
  · rintro ⟨hhead, rfl⟩
    split
    · rename_i hblank
      exact .absent hblank
    · rename_i hblank
      cases rest with
      | nil => exact absurd rfl hblank
      | cons gap text =>
        have hgap : isBlank gap = true := hhead gap rfl
        rw [allBlank_cons hgap, Bool.not_eq_true] at hblank
        rw [squeeze_cons hgap]
        exact .present hgap hblank

/-- A statement that is spelled is found. -/
theorem wording_readStatement_of_spells (offset : Nat)
    {said : Option (List Char × Option (List Char))} (h : SpellsStatement text said) :
    (readStatement ⟨offset, upper text⟩).map Statement.wording = said := by
  rw [wording_readStatement]
  cases h with
  | absent hgap => exact if_pos hgap
  | @present gap word rest operand hgap hne hword hrest =>
    obtain ⟨hhead, rfl⟩ := spellsOperand_iff.mp hrest
    have hstart : (gap ++ word ++ rest).dropWhile isBlank = word ++ rest := by
      rw [List.append_assoc, List.dropWhile_append_of_pos (allBlank_iff.mp hgap),
        dropWhile_visible hne hword]
    have hblank : ¬ allBlank (gap ++ word ++ rest) = true := by
      rw [← dropWhile_isBlank_eq_nil, hstart]
      exact fun h => hne (List.append_eq_nil_iff.mp h).1
    dsimp only
    rw [if_neg hblank, hstart, takeWhile_word hword hhead, dropWhile_word hword hhead]

/-- Whatever follows the label is spelled in one way or the other. -/
theorem spells_of_readStatement (offset : Nat) (text : List Char) :
    SpellsStatement text ((readStatement ⟨offset, upper text⟩).map Statement.wording) := by
  rw [wording_readStatement]
  dsimp only
  split
  · rename_i hblank
    exact .absent hblank
  · rename_i hblank
    rw [← dropWhile_isBlank_eq_nil] at hblank
    -- After the white space there is a visible character, so the mnemonic is not empty.
    have hne : (text.dropWhile isBlank).takeWhile isVisible ≠ [] := by
      obtain ⟨c, tail, hstart⟩ := List.exists_cons_of_ne_nil hblank
      rw [hstart, List.takeWhile_cons_of_pos (isVisible_iff.mpr (dropWhile_eq_cons hstart))]
      exact List.cons_ne_nil _ _
    have hword : ∀ c ∈ (text.dropWhile isBlank).takeWhile isVisible, isBlank c = false :=
      fun c hc => isVisible_iff.mp (List.mem_takeWhile_imp hc)
    have hrest : ∀ c ∈ ((text.dropWhile isBlank).dropWhile isVisible).head?, isBlank c = true := by
      intro c hc
      obtain ⟨tail, htail⟩ := List.head?_eq_some_iff.mp hc
      have hc := dropWhile_eq_cons htail
      rwa [isVisible, Bool.not_eq_false'] at hc
    have hgap : allBlank (text.takeWhile isBlank) = true := List.all_takeWhile
    have hspells := SpellsStatement.present hgap hne hword (spellsOperand_iff.mpr ⟨hrest, rfl⟩)
    rwa [List.append_assoc, List.takeWhile_append_dropWhile,
      List.takeWhile_append_dropWhile] at hspells

/-! ## Lines -/

theorem read_eq (index offset : Nat) (text : List Char) :
    read index offset text =
      (readLabel index ⟨offset, upper (text.takeWhile (· != ';'))⟩).map fun (label, rest) =>
        { index, label, statement := readStatement rest } := by
  rw [← takeWhile_upper fun c => toUpper_bne c (by decide)]
  rfl

theorem semicolon_of_label (h : SpellsLabel label name) : ';' ∉ label := by
  cases h with
  | absent => exact List.not_mem_nil
  | present hbefore hname hafter =>
    intro hmem
    rcases List.mem_append.mp hmem with hmem | hmem
    · exact (not_mark_of_label hbefore hname hafter hmem).2 rfl
    · exact absurd hmem (by decide)

/-- A line that spells something is read as what it spells. -/
theorem read_of_spells (h : Spells text w) :
    ∃ line, read index offset text = .ok line ∧ line.wording = w := by
  obtain ⟨hlabel, hstatement, hcolon, hsemicolon, hcomment⟩ := h
  rename_i label statement comment
  have hcode : (label ++ statement ++ comment).takeWhile (· != ';') = label ++ statement := by
    refine takeWhile_bne_of_head (fun hmem => ?_) hcomment
    rcases List.mem_append.mp hmem with hmem | hmem
    · exact semicolon_of_label hlabel hmem
    · exact hsemicolon hmem
  obtain ⟨token, ⟨start, rest⟩, hread, htoken, hrest⟩ :=
    readLabel_of_spells index offset hlabel hcolon
  cases hrest
  refine ⟨⟨index, token, readStatement ⟨start, upper statement⟩⟩, ?_, ?_⟩
  · rw [read_eq, hcode, hread]
    rfl
  · rw [wording, htoken, wording_readStatement_of_spells start hstatement]

/-- A line that is read spells what it is read as. -/
theorem spells_of_read {line : SourceLine} (h : read index offset text = .ok line) :
    Spells text line.wording := by
  rw [read_eq] at h
  obtain ⟨⟨token, start, rest⟩, hread, rfl⟩ := Except.map_eq_ok.mp h
  obtain ⟨label, statement, hsplit, hlabel, hcolon, hrest⟩ := spells_of_readLabel hread
  cases hrest
  have hsemicolon : ';' ∉ statement := by
    intro hmem
    have hmem : ';' ∈ text.takeWhile (· != ';') := by
      rw [hsplit]
      exact List.mem_append_right label hmem
    exact absurd (List.mem_takeWhile_imp hmem) (by decide)
  -- What is left out begins with the semicolon, unless there is none.
  have hcomment : ∀ c ∈ (text.dropWhile (· != ';')).head?, c = ';' := by
    intro c hc
    obtain ⟨tail, htail⟩ := List.head?_eq_some_iff.mp hc
    exact bne_eq_false_iff_eq.mp (dropWhile_eq_cons (p := (· != ';')) htail)
  have hstatement := spells_of_readStatement start statement
  have hspells :
      Spells _ (SourceLine.wording ⟨index, token, readStatement ⟨start, upper statement⟩⟩) :=
    .line hlabel hstatement (fun h => hcolon (Option.map_eq_none_iff.mp h)) hsemicolon hcomment
  rwa [← hsplit, List.takeWhile_append_dropWhile] at hspells

/-- The reader accepts exactly the lines that spell something, and finds what they spell. -/
theorem spells_iff (index offset : Nat) (text : List Char) (w : Wording) :
    Spells text w ↔ ∃ line, read index offset text = .ok line ∧ line.wording = w := by
  constructor
  · exact read_of_spells
  · rintro ⟨line, hline, rfl⟩
    exact spells_of_read hline

end SourceLine

namespace Spells

/-- The case of letters makes no difference. -/
theorem iff_of_upper_eq {other : List Char} (h : upper text = upper other) :
    Spells text w ↔ Spells other w := by
  have hread : SourceLine.read 0 0 text = SourceLine.read 0 0 other := by
    unfold SourceLine.read
    rw [← upper, h]
    rfl
  rw [SourceLine.spells_iff 0 0, SourceLine.spells_iff 0 0, hread]

/-- A comment makes no difference. -/
theorem comment_iff {comment : List Char} (h : ';' ∉ text) :
    Spells (text ++ ';' :: comment) w ↔ Spells text w := by
  have hcode : (text ++ ';' :: comment).takeWhile (· != ';') = text.takeWhile (· != ';') := by
    rw [takeWhile_bne h, List.takeWhile_eq_self_iff.mpr (bne_of_not_mem h)]
  rw [SourceLine.spells_iff 0 0, SourceLine.spells_iff 0 0, SourceLine.read_eq, SourceLine.read_eq,
    hcode]

end Spells

/-! ## Ends of lines -/

variable {after : List Char}

theorem SpellsOperand.append_blank {operand : Option (List Char)} (h : SpellsOperand rest operand)
    (hafter : allBlank after = true) : SpellsOperand (rest ++ after) operand := by
  cases h with
  | absent hgap => exact .absent (allBlank_append.mpr ⟨hgap, hafter⟩)
  | @present gap text hgap htext =>
    have hblank : allBlank (text ++ after) = false := by
      rw [Bool.eq_false_iff, Ne, allBlank_append]
      exact fun h => absurd h.1 (by rw [htext]; decide)
    have hspells := SpellsOperand.present hgap hblank
    rwa [squeeze_append, squeeze_eq_nil.mpr hafter, List.append_nil] at hspells

namespace SpellsStatement

variable {said : Option (List Char × Option (List Char))}

theorem append_blank (h : SpellsStatement text said) (hafter : allBlank after = true) :
    SpellsStatement (text ++ after) said := by
  cases h with
  | absent hgap => exact .absent (allBlank_append.mpr ⟨hgap, hafter⟩)
  | present hgap hne hword hrest =>
    rw [List.append_assoc]
    exact .present hgap hne hword (hrest.append_blank hafter)

theorem of_append_blank (h : SpellsStatement (text ++ after) said)
    (hafter : allBlank after = true) : SpellsStatement text said := by
  -- Every text says something as a statement, and with the white space added it says that still.
  have hbefore := SourceLine.spells_of_readStatement 0 text
  have hsaid := SourceLine.wording_readStatement_of_spells 0 h
  rw [SourceLine.wording_readStatement_of_spells 0 (hbefore.append_blank hafter)] at hsaid
  rwa [hsaid] at hbefore

end SpellsStatement

namespace Spells

theorem append_blank (h : Spells text w) (hafter : allBlank after = true) :
    Spells (text ++ after) w := by
  have hnot : ∀ {mark : Char}, isBlank mark = false → mark ∉ after := by
    intro mark hmark hmem
    rw [allBlank_iff.mp hafter mark hmem] at hmark
    cases hmark
  obtain ⟨hlabel, hstatement, hcolon, hsemicolon, hcomment⟩ := h
  rename_i label statement comment
  -- White space at the end belongs to the comment, if there is one, else to the statement.
  cases comment with
  | nil =>
    have hspells := Spells.line hlabel (hstatement.append_blank hafter)
      (fun h => List.not_mem_append (hcolon h) (hnot (by decide)))
      (List.not_mem_append hsemicolon (hnot (by decide))) hcomment
    rwa [List.append_nil, ← List.append_assoc, ← List.append_nil (label ++ statement)] at hspells
  | cons c comment =>
    rw [List.append_assoc]
    exact .line hlabel hstatement hcolon hsemicolon fun d hd => hcomment d hd

theorem of_concat {c : Char} (h : Spells (text ++ [c]) w) (hc : isBlank c = true) :
    Spells text w := by
  generalize hline : text ++ [c] = line at h
  obtain ⟨hlabel, hstatement, hcolon, hsemicolon, hcomment⟩ := h
  rename_i label statement comment
  rcases List.eq_nil_or_concat comment with rfl | ⟨comment, last, rfl⟩
  · -- Without a comment the white space belongs to the statement.
    rw [List.append_nil] at hline
    rcases List.eq_nil_or_concat statement with rfl | ⟨statement, last, rfl⟩
    · -- A line that is a label only ends with a colon, if it does not end at once.
      rw [List.append_nil] at hline
      generalize w.label = name at hlabel
      cases hlabel with
      | absent => exact absurd hline (by simp)
      | present hbefore hname hafter =>
        obtain ⟨-, hlast⟩ := List.append_inj' hline rfl
        cases hlast
        cases hc
    · rw [List.concat_eq_append, ← List.append_assoc] at hline
      obtain ⟨rfl, hlast⟩ := List.append_inj' hline rfl
      cases hlast
      rw [List.concat_eq_append] at hstatement hcolon hsemicolon
      have hblank : allBlank [c] = true := by rw [allBlank, List.all_cons, hc]; rfl
      have hspells := Spells.line hlabel (hstatement.of_append_blank hblank)
        (fun h hmem => hcolon h (List.mem_append_left _ hmem))
        (fun hmem => hsemicolon (List.mem_append_left _ hmem)) hcomment
      rwa [List.append_nil] at hspells
  · rw [List.concat_eq_append, ← List.append_assoc] at hline
    obtain ⟨rfl, hlast⟩ := List.append_inj' hline rfl
    cases hlast
    refine .line hlabel hstatement hcolon hsemicolon ?_
    -- The white space is not the semicolon, so that is still in front.
    cases comment with
    | nil =>
      cases hcomment c rfl
      cases hc
    | cons first comment => exact fun d hd => hcomment d hd

/-- White space at the end of a line makes no difference. -/
theorem append_blank_iff (hafter : allBlank after = true) :
    Spells (text ++ after) w ↔ Spells text w := by
  refine ⟨fun h => ?_, fun h => h.append_blank hafter⟩
  induction after using List.reverseRecOn with
  | nil => rwa [List.append_nil] at h
  | append_singleton after c ih =>
    obtain ⟨hafter, hc⟩ := allBlank_append.mp hafter
    rw [← List.append_assoc] at h
    exact ih hafter (h.of_concat (allBlank_iff.mp hc c (List.mem_singleton_self c)))

end Spells

/-! ## Lines that say the same -/

/-- Lines that differ only in the case of letters, in a comment, or in white space at the end. -/
inductive Alike : List Char → List Char → Prop where
  | case {text other : List Char} : upper text = upper other → Alike text other
  | comment {text comment : List Char} : ';' ∉ text → Alike (text ++ ';' :: comment) text
  | blank {text after : List Char} : allBlank after = true → Alike (text ++ after) text
  | symm {text other : List Char} : Alike text other → Alike other text
  | trans {text other last : List Char} : Alike text other → Alike other last → Alike text last

/-- Such lines spell the same. -/
theorem Alike.spells_iff {other : List Char} (h : Alike text other) :
    Spells text w ↔ Spells other w := by
  induction h with
  | case h => exact Spells.iff_of_upper_eq h
  | comment h => exact Spells.comment_iff h
  | blank h => exact Spells.append_blank_iff h
  | symm _ ih => exact ih.symm
  | trans _ _ ih ih' => exact ih.trans ih'

end Teach6809
