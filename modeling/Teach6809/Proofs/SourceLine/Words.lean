import Teach6809.Proofs.Except
import Teach6809.Proofs.SourceLine.Lines

/-!
# Where words are found

The reader cuts a line into smaller and smaller stretches. Every step leaves a part of what it was
given (`Stretch.PartOf`), so the stretches of words are parts of the line, and a part of the line in
upper case is the upper case of a part of the line. Main statements: where the label, the mnemonic,
the operand and the whole statement of a line stand, and what a malformed label is blamed on.
-/

namespace Teach6809

open Text

/-! ## Parts of a stretch -/

/-- The characters of a stretch are found in another at the byte where it starts. -/
def Stretch.PartOf (part whole : Stretch) : Prop :=
  ∃ before after, whole.text = before ++ part.text ++ after ∧
    part.offset = whole.offset + utf8Length before

namespace Stretch

variable {s part middle whole : Stretch} (p : Char → Bool)

theorem PartOf.refl (s : Stretch) : s.PartOf s := ⟨[], [], by simp, by simp⟩

theorem PartOf.trans (h : part.PartOf middle) (h' : middle.PartOf whole) : part.PartOf whole := by
  obtain ⟨before, after, htext, hoffset⟩ := h
  obtain ⟨before', after', htext', hoffset'⟩ := h'
  refine ⟨before' ++ before, after ++ after', ?_, ?_⟩
  · simp [htext', htext]
  · rw [hoffset, hoffset', utf8Length_append, Nat.add_assoc]

theorem takeWhile_partOf (s : Stretch) : (s.takeWhile p).PartOf s :=
  ⟨[], s.text.dropWhile p, by simp [takeWhile], by simp [takeWhile]⟩

theorem dropWhile_partOf (s : Stretch) : (s.dropWhile p).PartOf s :=
  ⟨s.text.takeWhile p, [], by simp [dropWhile], rfl⟩

theorem tail_partOf (s : Stretch) : s.tail.PartOf s :=
  ⟨s.text.take 1, [], by rw [List.append_nil]; exact (List.take_append_drop 1 s.text).symm, rfl⟩

theorem trimEnd_partOf (s : Stretch) : s.trimEnd.PartOf s := by
  obtain ⟨after, -, hsplit⟩ := exists_dropEndWhile isBlank s.text
  exact ⟨[], after, hsplit, by simp [trimEnd]⟩

end Stretch

/-! ## Upper case -/

/-- Upper case takes as many bytes. -/
theorem Text.utf8Length_upper (text : List Char) : utf8Length (upper text) = utf8Length text := by
  induction text with
  | nil => rfl
  | cons c rest ih =>
    have hsize : c.toUpper.utf8Size = c.utf8Size := by
      rcases toUpper_eq_or c with hsame | ⟨hlow, hhigh, hupper⟩
      · rw [hsame]
      · -- Both letters are ASCII.
        have hone : ∀ d : Char, d.toNat ≤ 127 → d.utf8Size = 1 := by
          intro d hd
          rw [Char.utf8Size_eq_one_iff, UInt32.le_iff_toNat_le]
          exact hd
        rw [hone c (by omega), hone c.toUpper (by omega)]
    show c.toUpper.utf8Size + utf8Length (upper rest) = c.utf8Size + utf8Length rest
    rw [hsize, ih]

/-- A part of a line in upper case is the upper case of a part of the line. -/
theorem Stretch.PartOf.covers {part : Stretch} {source : List Char} {index : Nat}
    {above text : List Char} (h : part.PartOf ⟨utf8Length above, upper text⟩)
    (hline : IsLine source index above text) :
    ∃ slice, Place.Covers ⟨index, part.span⟩ source slice ∧ part.text = upper slice := by
  obtain ⟨before, after, htext, hoffset⟩ := h
  -- The letters of the line stand where those of its upper case do.
  obtain ⟨front, back, rfl, hfront, rfl⟩ := List.map_eq_append_iff.mp htext
  obtain ⟨before, slice, rfl, rfl, hslice⟩ := List.map_eq_append_iff.mp hfront
  refine ⟨slice, ⟨above, before, back, hline, ?_, ?_⟩, hslice.symm⟩
  · show part.offset = _
    rw [hoffset, utf8Length_append, ← utf8Length_upper before]
    rfl
  · show utf8Length part.text = _
    rw [← hslice]
    exact utf8Length_upper slice

/-! ## Words of a line -/

/-- A word is the text of a stretch, changed in the given way, at the place of the stretch. -/
def Token.IsAt (t : Token) (change : List Char → List Char) (part : Stretch) : Prop :=
  t.text = String.ofList (change part.text) ∧ t.span = part.span

namespace SourceLine

variable {index : Nat} {code rest : Stretch} {label : Option Token} {problem : Diagnostic}

/-! ### Labels -/

/-- What stands before the first colon, without the white space around it. -/
def labelStretch (code : Stretch) : Stretch :=
  ((code.takeWhile (· != ':')).dropWhile isBlank).trimEnd

theorem labelStretch_partOf (code : Stretch) : (labelStretch code).PartOf code :=
  (Stretch.trimEnd_partOf _).trans
    ((Stretch.dropWhile_partOf isBlank _).trans (Stretch.takeWhile_partOf _ code))

/-- The span of a label is that of its characters, if it has some. -/
theorem span_labelStretch (h : (labelStretch code).text ≠ []) :
    (⟨(labelStretch code).offset, max 1 (labelStretch code).span.length⟩ : Span) =
      (labelStretch code).span := by
  have hpos : 1 ≤ (labelStretch code).span.length := by
    obtain ⟨c, others, htext⟩ := List.exists_cons_of_ne_nil h
    have hsize := c.utf8Size_pos
    show 1 ≤ utf8Length (labelStretch code).text
    rw [htext, utf8Length_cons]
    omega
  rw [Nat.max_eq_right hpos]
  rfl

/-- If there is no label before the colon, the colon is where the label would be. -/
theorem colon_partOf (hcolon : ':' ∈ code.text) (h : (labelStretch code).text = []) :
    (⟨(labelStretch code).offset, [':']⟩ : Stretch).PartOf code := by
  let word := code.text.takeWhile (· != ':')
  have hblank : word.dropWhile isBlank = [] := by
    -- Otherwise a visible character would be left, also after trimming.
    obtain ⟨after, hafter, hsplit⟩ := exists_dropEndWhile isBlank (word.dropWhile isBlank)
    rw [show dropEndWhile isBlank (word.dropWhile isBlank) = [] from h, List.nil_append] at hsplit
    cases hstart : word.dropWhile isBlank with
    | nil => rfl
    | cons c others =>
      have hvisible := dropWhile_eq_cons hstart
      rw [hafter c (by rw [← hsplit, hstart]; exact List.mem_cons_self)] at hvisible
      cases hvisible
  have hword : word.takeWhile isBlank = word := by
    have hsplit := List.takeWhile_append_dropWhile (p := isBlank) (l := word)
    rwa [hblank, List.append_nil] at hsplit
  obtain ⟨before, after, hsplit, hbefore⟩ := List.eq_append_cons_of_mem hcolon
  have hbefore : word = before := by
    show code.text.takeWhile (· != ':') = before
    rw [hsplit, takeWhile_bne hbefore]
  refine ⟨word, after, ?_, ?_⟩
  · rw [hbefore, hsplit]
    simp
  · show code.offset + utf8Length (word.takeWhile isBlank) = code.offset + utf8Length word
    rw [hword]

/-- The label that is read is found before the colon, and the rest of the line behind it. -/
theorem partOf_of_readLabel (h : readLabel index code = .ok (label, rest)) :
    rest.PartOf code ∧
      ∀ token, label = some token → ∃ name : Stretch, name.PartOf code ∧ token.IsAt id name := by
  unfold readLabel at h
  split at h
  · dsimp only at h
    rw [show ((code.takeWhile (· != ':')).dropWhile isBlank).trimEnd = labelStretch code from rfl]
      at h
    split at h
    · rename_i hname
      have hne : (labelStretch code).text ≠ [] := by
        intro hnil
        rw [hnil] at hname
        cases hname
      rw [span_labelStretch hne] at h
      cases h
      refine ⟨(Stretch.tail_partOf _).trans (Stretch.dropWhile_partOf _ code), ?_⟩
      intro token htoken
      cases htoken
      exact ⟨labelStretch code, labelStretch_partOf code, rfl, rfl⟩
    · split at h <;> cases h
  · cases h
    exact ⟨.refl code, fun token htoken => nomatch htoken⟩

/-- A malformed label is blamed on the characters before the colon, or on the colon. -/
theorem partOf_of_readLabel_error (h : readLabel index code = .error problem) :
    ∃ part : Stretch, part.PartOf code ∧ problem.place = some ⟨index, part.span⟩ := by
  unfold readLabel at h
  split at h
  · rename_i hcolon
    dsimp only at h
    rw [show ((code.takeWhile (· != ':')).dropWhile isBlank).trimEnd = labelStretch code from rfl]
      at h
    split at h
    · cases h
    · split at h
      · -- An empty name has no characters to point at; the colon behind it stands for it.
        rename_i hempty
        have hnil : (labelStretch code).text = [] := List.isEmpty_iff.mp hempty
        cases h
        refine ⟨⟨(labelStretch code).offset, [':']⟩, colon_partOf hcolon hnil, ?_⟩
        show some (Place.mk index ⟨_, max 1 (utf8Length (labelStretch code).text)⟩) = _
        rw [hnil]
        rfl
      · rename_i hne
        rw [List.isEmpty_iff] at hne
        rw [span_labelStretch hne] at h
        cases h
        exact ⟨labelStretch code, labelStretch_partOf code, rfl⟩
  · cases h

/-! ### Statements -/

/-- White space at the end of a text does not count when it is squeezed. -/
theorem squeeze_trimEnd (text : List Char) : squeeze (trimEnd text) = squeeze text := by
  obtain ⟨after, hafter, hsplit⟩ := exists_dropEndWhile isBlank text
  conv => rhs; rw [hsplit]
  rw [squeeze_append, squeeze_eq_nil.mpr (allBlank_iff.mpr hafter), List.append_nil]
  rfl

section Statement

variable (start : Stretch)

/-- The mnemonic of a statement that starts here. -/
def wordStretch : Stretch := start.takeWhile fun c => !isBlank c

/-- The white space behind the mnemonic. -/
def gapStretch : Stretch := (start.dropWhile fun c => !isBlank c).takeWhile isBlank

/-- What follows the white space behind the mnemonic. -/
def restStretch : Stretch := (start.dropWhile fun c => !isBlank c).dropWhile isBlank

/-- The mnemonic, the white space behind it and the operand. -/
def wholeStretch : Stretch :=
  ⟨start.offset,
    (wordStretch start).text ++ (gapStretch start).text ++ (restStretch start).trimEnd.text⟩

theorem restStretch_partOf : (restStretch start).PartOf start :=
  (Stretch.dropWhile_partOf isBlank _).trans (Stretch.dropWhile_partOf _ start)

/-- The three parts follow on one another, and behind them there is white space only. -/
theorem wholeStretch_partOf : (wholeStretch start).PartOf start := by
  obtain ⟨after, -, hsplit⟩ := exists_dropEndWhile isBlank (restStretch start).text
  have hwords : (wordStretch start).text ++ (start.text.dropWhile fun c => !isBlank c) =
      start.text := List.takeWhile_append_dropWhile
  have hgaps : (gapStretch start).text ++ (restStretch start).text =
      start.text.dropWhile fun c => !isBlank c := List.takeWhile_append_dropWhile
  have hrest : (restStretch start).text = (restStretch start).trimEnd.text ++ after := hsplit
  refine ⟨[], after, ?_, by simp [wholeStretch]⟩
  calc start.text = (wordStretch start).text ++
          ((gapStretch start).text ++ (restStretch start).text) := by rw [hgaps, hwords]
    _ = [] ++ (wholeStretch start).text ++ after := by simp [hrest, wholeStretch]

/-- From the start of the mnemonic to the end of the operand. -/
theorem span_wholeStretch :
    (⟨start.offset, (restStretch start).trimEnd.span.stop - start.offset⟩ : Span) =
      (wholeStretch start).span := by
  have hoffset : (restStretch start).trimEnd.span.offset = start.offset +
      utf8Length (wordStretch start).text + utf8Length (gapStretch start).text := rfl
  have hlength : utf8Length (wholeStretch start).text = utf8Length (wordStretch start).text +
      utf8Length (gapStretch start).text + (restStretch start).trimEnd.span.length := by
    rw [wholeStretch, utf8Length_append, utf8Length_append]
    rfl
  show _ = (⟨start.offset, utf8Length (wholeStretch start).text⟩ : Span)
  rw [Span.mk.injEq, Span.stop]
  omega

end Statement

/-- Where the parts of a statement stand; the whole goes from the mnemonic to the operand. -/
theorem partOf_of_readStatement {s : Statement} (h : readStatement code = some s) :
    (∃ word : Stretch, word.PartOf code ∧ s.mnemonic.IsAt id word) ∧
    (∀ operand, s.operand = some operand →
      ∃ text : Stretch, text.PartOf code ∧ operand.IsAt squeeze text) ∧
    ∃ whole : Stretch, whole.PartOf code ∧ s.span = whole.span := by
  let start := code.dropWhile isBlank
  have hstart : start.PartOf code := Stretch.dropWhile_partOf isBlank code
  have hword : (wordStretch start).PartOf code := (Stretch.takeWhile_partOf _ start).trans hstart
  unfold readStatement at h
  dsimp only at h
  split at h
  · cases h
  · cases h
    refine ⟨⟨wordStretch start, hword, rfl, rfl⟩, ?_, ?_⟩
    · intro operand hread
      split at hread
      · cases hread
      · cases hread
        refine ⟨(restStretch start).trimEnd, ?_, ?_, rfl⟩
        · exact (Stretch.trimEnd_partOf _).trans ((restStretch_partOf start).trans hstart)
        · -- The operand loses all its white space, so that at its end may as well be left out.
          show String.ofList (squeeze (restStretch start).text) =
            String.ofList (squeeze (trimEnd (restStretch start).text))
          rw [squeeze_trimEnd]
    · unfold Statement.span
      split
      · rename_i operand hread
        dsimp only at hread
        split at hread
        · cases hread
        · cases hread
          exact ⟨wholeStretch start, (wholeStretch_partOf start).trans hstart,
            span_wholeStretch start⟩
      · exact ⟨wordStretch start, hword, rfl⟩

/-! ### Lines -/

/-- Every part of a line has the place in the source text that it was read from. -/
structure Exact (line : SourceLine) (source : List Char) : Prop where
  label : ∀ t, line.label = some t →
    ∃ slice, Place.Covers ⟨line.index, t.span⟩ source slice ∧ t.text = String.ofList (upper slice)
  mnemonic : ∀ s, line.statement = some s →
    ∃ slice, Place.Covers ⟨line.index, s.mnemonic.span⟩ source slice ∧
      s.mnemonic.text = String.ofList (upper slice)
  operand : ∀ s, line.statement = some s → ∀ t, s.operand = some t →
    ∃ slice, Place.Covers ⟨line.index, t.span⟩ source slice ∧
      t.text = String.ofList (squeeze (upper slice))
  statement : ∀ s, line.statement = some s →
    ∃ slice, Place.Covers ⟨line.index, s.span⟩ source slice

variable {source above text : List Char} {line : SourceLine}

/-- A word that is part of a line is at its place in the source text. -/
theorem covers_of_isAt {t : Token} {change : List Char → List Char} {part : Stretch}
    (hline : IsLine source index above text) (hpart : part.PartOf ⟨utf8Length above, upper text⟩)
    (ht : t.IsAt change part) :
    ∃ slice, Place.Covers ⟨index, t.span⟩ source slice ∧
      t.text = String.ofList (change (upper slice)) := by
  obtain ⟨slice, hcovers, htext⟩ := hpart.covers hline
  refine ⟨slice, ?_, ?_⟩
  · rw [ht.2]
    exact hcovers
  · rw [ht.1, htext]

/-- A line that is read has every part where it was found. -/
theorem exact_of_read (hline : IsLine source index above text)
    (h : read index (utf8Length above) text = .ok line) : line.Exact source := by
  unfold read at h
  obtain ⟨⟨label, rest⟩, hlabel, h⟩ := Except.bind_eq_ok.mp h
  cases h
  obtain ⟨hrest, hname⟩ := partOf_of_readLabel hlabel
  have hcode : ((⟨utf8Length above, upper text⟩ : Stretch).takeWhile (· != ';')).PartOf
      ⟨utf8Length above, upper text⟩ := Stretch.takeWhile_partOf _ _
  have hrest : rest.PartOf ⟨utf8Length above, upper text⟩ := hrest.trans hcode
  refine ⟨?_, ?_, ?_, ?_⟩
  · intro t ht
    obtain ⟨name, hname, hat⟩ := hname t ht
    exact covers_of_isAt hline (hname.trans hcode) hat
  · intro s hs
    obtain ⟨⟨word, hword, hat⟩, -, -⟩ := partOf_of_readStatement hs
    exact covers_of_isAt hline (hword.trans hrest) hat
  · intro s hs t ht
    obtain ⟨-, hoperand, -⟩ := partOf_of_readStatement hs
    obtain ⟨part, hpart, hat⟩ := hoperand t ht
    exact covers_of_isAt hline (hpart.trans hrest) hat
  · intro s hs
    obtain ⟨-, -, whole, hwhole, hspan⟩ := partOf_of_readStatement hs
    obtain ⟨slice, hcovers, -⟩ := (hwhole.trans hrest).covers hline
    exact ⟨slice, by rw [hspan]; exact hcovers⟩

/-- A line that is refused is blamed on a part of it. -/
theorem covers_of_read_error (hline : IsLine source index above text)
    (h : read index (utf8Length above) text = .error problem) :
    ∃ place slice, problem.place = some place ∧ place.Covers source slice := by
  unfold read at h
  rcases Except.bind_eq_error.mp h with hlabel | ⟨_, -, hrest⟩
  · obtain ⟨part, hpart, hplace⟩ := partOf_of_readLabel_error hlabel
    obtain ⟨slice, hcovers, -⟩ := (hpart.trans (Stretch.takeWhile_partOf _ _)).covers hline
    exact ⟨_, slice, hplace, hcovers⟩
  · cases hrest

end SourceLine
end Teach6809
