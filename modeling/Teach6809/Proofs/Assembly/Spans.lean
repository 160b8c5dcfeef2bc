import Teach6809.Proofs.Assembly.WellFormed

/-!
# Assembly does not depend on spans

Spans are kept for messages only. `withoutSpans` moves every span to the start of the text; each
pass of the assembler commutes with it, whether the pass succeeds or fails. Main statement:
`Assembly.ofLines_withoutSpans`; so lines that agree but for their spans make programs that agree
but for theirs.
-/

namespace Teach6809

/-! ## Without spans -/

/-- The span of what was found nowhere. -/
def Span.zero : Span := ⟨0, 0⟩

/-- A word without the place where it was found. -/
def Token.withoutSpan (t : Token) : Token := { t with span := .zero }

/-- A statement without the places of its words. -/
def Statement.withoutSpans (s : Statement) : Statement :=
  ⟨s.mnemonic.withoutSpan, s.operand.map Token.withoutSpan⟩

/-- A line without the places of its words. -/
def SourceLine.withoutSpans (line : SourceLine) : SourceLine :=
  { line with
    label := line.label.map Token.withoutSpan
    statement := line.statement.map Statement.withoutSpans }

/-- An instruction without its stretch of the line. -/
def LocatedInstruction.withoutSpan (i : LocatedInstruction) : LocatedInstruction :=
  { i with span := .zero }

/-- An instruction without its stretch of the line. -/
def PlacedInstruction.withoutSpan (i : PlacedInstruction) : PlacedInstruction :=
  { i with span := .zero }

/-- A program without the stretches of its instructions. -/
def Program.withoutSpans (p : Program) : Program :=
  { p with lines := p.lines.map PlacedInstruction.withoutSpan }

/-- A diagnostic that blames a line as a whole. -/
def Diagnostic.withoutSpan (d : Diagnostic) : Diagnostic :=
  { d with place := d.place.map fun place => { place with span := .zero } }

namespace Assembly

variable {α β γ δ : Type}

/-- The result of a pass without spans: `g` takes them off the answer. -/
def erase (g : α → β) : Except Diagnostic α → Except Diagnostic β
  | .ok a => .ok (g a)
  | .error problem => .error problem.withoutSpan

/-- Two passes one after the other commute with taking off spans if each does. -/
theorem erase_bind {x : Except Diagnostic α} {f : α → Except Diagnostic γ}
    {f' : β → Except Diagnostic δ} {g : α → β} {h : γ → δ} (hf : ∀ a, erase h (f a) = f' (g a)) :
    erase h (x >>= f) = erase g x >>= f' := by
  cases x with
  | error problem => rfl
  | ok a => exact hf a

theorem erase_eq_ok {x : Except Diagnostic α} {g : α → β} {b : β} :
    erase g x = .ok b ↔ ∃ a, x = .ok a ∧ g a = b := by
  cases x <;> simp [erase]

end Assembly

open Assembly (erase erase_bind)

/-! ## Passes -/

theorem Statement.span_withoutSpans (s : Statement) : s.withoutSpans.span = .zero := by
  unfold span withoutSpans
  cases s.operand <;> rfl

theorem Instruction.ofStatement?_withoutSpans (s : Statement) :
    ofStatement? s.withoutSpans = ofStatement? s := by
  unfold ofStatement? Statement.withoutSpans
  rw [Option.map_map]
  rfl

theorem LabelTable.collect_withoutSpans (labels : LabelTable) (lines : List SourceLine) :
    labels.collect (lines.map SourceLine.withoutSpans) = erase id (labels.collect lines) := by
  induction lines generalizing labels with
  | nil => rfl
  | cons line rest ih =>
    rw [List.map_cons, collect, collect]
    cases hlabel : line.label with
    | none =>
      rw [SourceLine.withoutSpans, hlabel]
      exact ih labels
    | some label =>
      rw [SourceLine.withoutSpans, hlabel]
      dsimp only [Option.map_some, Token.withoutSpan]
      split
      · rfl
      · exact ih _

namespace Assembly

theorem checkStatement_withoutSpans (labels : LabelTable) (line : Nat) (s : Statement) :
    checkStatement labels line s.withoutSpans =
      erase LocatedInstruction.withoutSpan (checkStatement labels line s) := by
  unfold checkStatement
  rw [Instruction.ofStatement?_withoutSpans, s.span_withoutSpans]
  split
  · rfl
  · split <;> rfl

theorem checkLines_withoutSpans (labels : LabelTable) (lines : List SourceLine) :
    checkLines labels (lines.map SourceLine.withoutSpans) =
      erase (List.map LocatedInstruction.withoutSpan) (checkLines labels lines) := by
  induction lines with
  | nil => rfl
  | cons line rest ih =>
    rw [List.map_cons, checkLines, checkLines]
    cases hstatement : line.statement with
    | none =>
      rw [SourceLine.withoutSpans, hstatement]
      exact ih
    | some s =>
      rw [SourceLine.withoutSpans, hstatement]
      dsimp only [Option.map_some]
      rw [checkStatement_withoutSpans, ih]
      symm
      refine erase_bind fun first => ?_
      exact erase_bind fun others => rfl

theorem requireEnd_withoutSpans (instructions : List LocatedInstruction) :
    requireEnd (instructions.map LocatedInstruction.withoutSpan) =
      erase id (requireEnd instructions) := by
  unfold requireEnd
  rw [List.getLast?_map]
  cases instructions.getLast? with
  | none => rfl
  | some last =>
    -- The mnemonic is the same by definition; only the blamed span differs.
    show (if last.mnemonic = .stop then _ else _) = _
    dsimp only
    split <;> rfl

theorem place_withoutSpans (address : Nat) (instructions : List LocatedInstruction) :
    place address (instructions.map LocatedInstruction.withoutSpan) =
      erase (List.map PlacedInstruction.withoutSpan) (place address instructions) := by
  induction instructions generalizing address with
  | nil => rfl
  | cons i rest ih =>
    rw [List.map_cons, place, place]
    show (if Memory.size < address + i.size then _ else _) = _
    split
    · rfl
    · show place (address + i.size) _ >>= _ = _
      rw [ih]
      symm
      exact erase_bind fun others => rfl

theorem resolve_withoutSpans (p : Program) (placed : List PlacedInstruction) :
    resolve p.withoutSpans (placed.map PlacedInstruction.withoutSpan) =
      erase (List.map PlacedInstruction.withoutSpan) (resolve p placed) := by
  have htarget : p.withoutSpans.labelTarget? = p.labelTarget? :=
    p.labelTarget?_map fun _ => ⟨rfl, rfl, rfl⟩
  induction placed with
  | nil => rfl
  | cons i rest ih =>
    rw [List.map_cons, resolve, resolve, htarget]
    have hbytes : i.withoutSpan.operand.bytes i.withoutSpan.mnemonic i.withoutSpan.next
        p.labelTarget? = i.operand.bytes i.mnemonic i.next p.labelTarget? := rfl
    rw [hbytes]
    cases i.operand.bytes i.mnemonic i.next p.labelTarget? with
    | error cause => rfl
    | ok operandBytes =>
      dsimp only
      rw [ih]
      symm
      exact erase_bind fun others => rfl

/-! ## All passes -/

/-- What the assembler makes of the lines of a text. -/
def ofLines (lines : List SourceLine) : Except Diagnostic Program := do
  let labels ← LabelTable.ofLines lines
  let instructions ← checkLines labels lines
  requireEnd instructions
  let placed ← place origin.toNat instructions
  let layout : Program := { labels, lineCount := lines.length, lines := placed }
  let resolved ← resolve layout placed
  return { layout with lines := resolved }

theorem assemble_eq_ofLines (source : String) :
    assemble source = SourceLine.ofSource source >>= ofLines := rfl

/-- Lines without spans make the same program without spans, or fail for the same cause. -/
theorem ofLines_withoutSpans (lines : List SourceLine) :
    ofLines (lines.map SourceLine.withoutSpans) = erase Program.withoutSpans (ofLines lines) := by
  unfold ofLines LabelTable.ofLines
  rw [LabelTable.collect_withoutSpans, List.length_map]
  -- From the first pass to the last, each is taken out of the erasure by its own lemma.
  refine (erase_bind fun labels => ?_).symm
  dsimp only [id]
  rw [checkLines_withoutSpans]
  refine erase_bind fun instructions => ?_
  rw [requireEnd_withoutSpans]
  refine erase_bind fun _ => ?_
  rw [place_withoutSpans]
  refine erase_bind fun placed => ?_
  have hlayout : ({ labels, lineCount := lines.length, lines := placed } : Program).withoutSpans =
    { labels, lineCount := lines.length, lines := placed.map PlacedInstruction.withoutSpan } := rfl
  rw [← hlayout, resolve_withoutSpans]
  exact erase_bind fun resolved => rfl

end Assembly
end Teach6809
