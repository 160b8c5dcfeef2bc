import Teach6809.Proofs.Assembly.WellFormed

/-!
# The passes of the assembler

Every pass goes over a list and stops at the first element that breaks its rule. Checking and
resolving look at each element by itself; collecting labels and placing also at those before it.
For each pass there is what it makes of the list when it does not stop, said without it (`declared`,
`statements`, `layOut`), and where it stops.
-/

namespace Teach6809

variable {problem : Diagnostic}

/-! ## Labels -/

namespace LabelTable

variable {labels table : LabelTable} {lines : List SourceLine}

/-- The labels of lines in their order, repeated ones included. -/
def declared (lines : List SourceLine) : LabelTable :=
  ⟨lines.filterMap fun line => line.label.map fun label => (label.text, line.index)⟩

/-- A name is declared if it is in the table. -/
theorem declares_iff {name : String} :
    labels.declares name = true ↔ ∃ line, (name, line) ∈ labels.entries := by
  -- The search goes through the entries, so the induction is on them and not on the table.
  have hentries : ∀ entries : List (String × Nat),
      (entries.lookup name).isSome = true ↔ ∃ line, (name, line) ∈ entries := by
    intro entries
    induction entries with
    | nil => simp
    | cons entry rest ih =>
      rw [List.lookup_cons]
      by_cases hname : name = entry.1
      · subst hname
        simp only [beq_self_eq_true, Option.isSome_some, true_iff]
        exact ⟨entry.2, List.mem_cons_self⟩
      · rw [beq_eq_false_iff_ne.mpr hname]
        refine ih.trans (exists_congr fun line => ?_)
        rw [List.mem_cons]
        constructor
        · exact .inr
        · intro h
          rcases h with heq | hmem
          · exact absurd (congrArg Prod.fst heq) hname
          · exact hmem
  exact hentries labels.entries

theorem declares_declared {name : String} :
    (declared lines).declares name = true ↔
      ∃ line ∈ lines, ∃ label, line.label = some label ∧ label.text = name := by
  rw [declares_iff]
  constructor
  · intro h
    obtain ⟨n, hmem⟩ := h
    obtain ⟨line, hline, hlabel⟩ := List.mem_filterMap.mp hmem
    obtain ⟨label, hlabel, hentry⟩ := Option.map_eq_some_iff.mp hlabel
    exact ⟨line, hline, label, hlabel, congrArg Prod.fst hentry⟩
  · intro h
    obtain ⟨line, hline, label, hlabel, rfl⟩ := h
    exact ⟨line.index, List.mem_filterMap.mpr ⟨line, hline, by rw [hlabel]; rfl⟩⟩

theorem collect_append (labels : LabelTable) (before after : List SourceLine) :
    labels.collect (before ++ after) =
      labels.collect before >>= fun table => table.collect after := by
  induction before generalizing labels with
  | nil => rfl
  | cons line rest ih =>
    rw [List.cons_append, collect, collect]
    cases line.label with
    | none => exact ih labels
    | some label =>
      dsimp only
      split
      · rfl
      · exact ih _

/-- Collecting adds the labels of the lines to the table. -/
theorem collect_eq_ok (h : labels.collect lines = .ok table) :
    table.entries = labels.entries ++ (declared lines).entries := by
  induction lines generalizing labels with
  | nil =>
    cases h
    simp [declared]
  | cons line rest ih =>
    rw [collect] at h
    cases hlabel : line.label with
    | none =>
      rw [hlabel] at h
      rw [ih h]
      simp [declared, hlabel]
    | some label =>
      rw [hlabel] at h
      dsimp only at h
      split at h
      · cases h
      · rw [ih h]
        simp [declared, add, hlabel]

/-- Collecting does not get past a line whose label was declared before it. -/
theorem collect_ne_ok {before after : List SourceLine} {line other : SourceLine}
    {label again : Token} (hother : other ∈ before) (hlabel : other.label = some label)
    (hagain : line.label = some again) (hsame : again.text = label.text) :
    labels.collect (before ++ line :: after) ≠ .ok table := by
  intro h
  rw [collect_append] at h
  obtain ⟨middle, hmiddle, h⟩ := Except.bind_eq_ok.mp h
  -- By the time the line is reached, the label is in the table.
  have hdeclared : middle.declares again.text = true := by
    obtain ⟨n, hmem⟩ :=
      declares_iff.mp (declares_declared.mpr ⟨other, hother, label, hlabel, rfl⟩)
    rw [declares_iff, collect_eq_ok hmiddle, hsame]
    exact ⟨n, List.mem_append_right _ hmem⟩
  rw [collect, hagain] at h
  dsimp only at h
  rw [if_pos hdeclared] at h
  cases h

/-- Collecting stops at the first label that is in the table by then. -/
theorem collect_eq_error (h : labels.collect lines = .error problem) :
    ∃ before line after label table, lines = before ++ line :: after ∧
      labels.collect before = .ok table ∧ line.label = some label ∧
      table.declares label.text = true ∧
      problem = .placed (.duplicateLabel label.text) line.index label.span := by
  induction lines generalizing labels with
  | nil => cases h
  | cons first rest ih =>
    rw [collect] at h
    cases hlabel : first.label with
    | none =>
      rw [hlabel] at h
      obtain ⟨before, line, after, label, table, rfl, hbefore, hline⟩ := ih h
      refine ⟨first :: before, line, after, label, table, rfl, ?_, hline⟩
      rw [collect, hlabel]
      exact hbefore
    | some label =>
      rw [hlabel] at h
      dsimp only at h
      split at h
      · -- This is the line: its label is among those of the lines above.
        rename_i hdeclared
        cases h
        exact ⟨[], first, rest, label, labels, rfl, rfl, hlabel, hdeclared, rfl⟩
      · rename_i hnew
        obtain ⟨before, line, after, other, table, rfl, hbefore, hline⟩ := ih h
        refine ⟨first :: before, line, after, other, table, rfl, ?_, hline⟩
        rw [collect, hlabel]
        dsimp only
        rw [if_neg hnew]
        exact hbefore

end LabelTable

namespace Assembly

/-! ## Instructions -/

/-- The statements of lines, each with the number of its line. -/
def statements (lines : List SourceLine) : List (Nat × Statement) :=
  lines.filterMap fun line => line.statement.map fun s => (line.index, s)

theorem mem_statements {lines : List SourceLine} {n : Nat} {s : Statement} :
    (n, s) ∈ statements lines ↔ ∃ line ∈ lines, line.statement = some s ∧ line.index = n := by
  rw [statements, List.mem_filterMap]
  refine exists_congr fun line => and_congr_right fun _ => ?_
  rw [Option.map_eq_some_iff]
  constructor
  · intro h
    obtain ⟨t, ht, heq⟩ := h
    cases heq
    exact ⟨ht, rfl⟩
  · intro h
    exact ⟨s, h.1, by rw [h.2]⟩

/-- Checking lines checks their statements one after the other. -/
theorem checkLines_eq (labels : LabelTable) (lines : List SourceLine) :
    checkLines labels lines =
      (statements lines).mapM fun item => checkStatement labels item.1 item.2 := by
  induction lines with
  | nil => rfl
  | cons line rest ih =>
    rw [checkLines]
    cases hstatement : line.statement with
    | none =>
      have hcons : statements (line :: rest) = statements rest := by
        simp [statements, hstatement]
      rw [hcons]
      exact ih
    | some s =>
      have hcons : statements (line :: rest) = (line.index, s) :: statements rest := by
        simp [statements, hstatement]
      rw [hcons, List.mapM_cons, ih]

theorem instruction_of_check {labels : LabelTable} {i : Instruction} {c : CheckedInstruction}
    (h : i.check labels = .ok c) : c.instruction = i := by
  unfold Instruction.check at h
  split at h
  · cases h
  · obtain ⟨operand, -, rfl⟩ := Except.map_eq_ok.mp h
    rfl

/-- A checked instruction is that of its statement, at the same place. -/
theorem instruction_of_checkStatement {labels : LabelTable} {n : Nat} {s : Statement}
    {i : LocatedInstruction} (h : checkStatement labels n s = .ok i) :
    i.line = n ∧ i.span = s.span ∧ Instruction.ofStatement? s = some i.instruction ∧
      i.instruction.check labels = .ok i.toCheckedInstruction := by
  unfold checkStatement at h
  split at h
  · cases h
  · rename_i instruction hknown
    split at h
    · cases h
    · rename_i checked hchecked
      cases h
      refine ⟨rfl, rfl, ?_, ?_⟩
      · rw [hknown, instruction_of_check hchecked]
      · rw [instruction_of_check hchecked]
        exact hchecked

/-- A statement is refused because its mnemonic is unknown or because of its instruction. -/
theorem checkStatement_eq_error {labels : LabelTable} {n : Nat} {s : Statement}
    (h : checkStatement labels n s = .error problem) :
    Instruction.ofStatement? s = none ∧
        problem = .placed (.unknownMnemonic s.mnemonic.text) n s.mnemonic.span ∨
      ∃ i cause, Instruction.ofStatement? s = some i ∧ i.check labels = .error cause ∧
        problem = .placed cause n s.span := by
  unfold checkStatement at h
  split at h
  · rename_i hunknown
    cases h
    exact .inl ⟨hunknown, rfl⟩
  · rename_i i hi
    split at h
    · rename_i cause hcause
      cases h
      exact .inr ⟨i, cause, hi, hcause, rfl⟩
    · cases h

/-- The end of a program is missing because there is no instruction or because the last is another
one. -/
theorem requireEnd_eq_error {instructions : List LocatedInstruction}
    (h : requireEnd instructions = .error problem) :
    instructions = [] ∧ problem = .unplaced (.missingEnd none) ∨
      ∃ last, instructions.getLast? = some last ∧ last.mnemonic ≠ .stop ∧
        problem = .placed (.missingEnd (some last.mnemonic)) last.line last.span := by
  unfold requireEnd at h
  split at h
  · rename_i hnone
    cases h
    exact .inl ⟨List.getLast?_eq_none_iff.mp hnone, rfl⟩
  · rename_i last hlast
    split at h
    · cases h
    · rename_i hstop
      cases h
      exact .inr ⟨last, hlast, hstop, rfl⟩

/-! ## Places -/

/-- Instructions one after the other from an address on, as if memory had no end. -/
def layOut (address : Nat) : List LocatedInstruction → List PlacedInstruction
  | [] => []
  | i :: rest =>
    { i with address := UInt16.ofNat address, operandBytes := [] } :: layOut (address + i.size) rest

theorem layOut_append (address : Nat) (before after : List LocatedInstruction) :
    layOut address (before ++ after) = layOut address before ++
      layOut (address + PlacedInstruction.totalSize (layOut address before)) after := by
  induction before generalizing address with
  | nil => rfl
  | cons i rest ih =>
    have hsize : address + PlacedInstruction.totalSize (layOut address (i :: rest)) =
        address + i.size + PlacedInstruction.totalSize (layOut (address + i.size) rest) :=
      (Nat.add_assoc _ _ _).symm
    rw [List.cons_append, layOut, ih, hsize]
    rfl

/-- Laying instructions out only adds addresses. -/
theorem map_layOut (address : Nat) (instructions : List LocatedInstruction) :
    (layOut address instructions).map (fun i => i.toLocatedInstruction) = instructions := by
  induction instructions generalizing address with
  | nil => rfl
  | cons i rest ih => rw [layOut, List.map_cons, ih]

/-- Placing that does not stop lays the instructions out. -/
theorem layOut_of_place {instructions : List LocatedInstruction} {address : Nat}
    {placed : List PlacedInstruction} (h : place address instructions = .ok placed) :
    placed = layOut address instructions := by
  induction instructions generalizing address placed with
  | nil =>
    cases h
    rfl
  | cons i rest ih =>
    rw [place] at h
    split at h
    · cases h
    · obtain ⟨others, hothers, h⟩ := Except.bind_eq_ok.mp h
      cases h
      rw [layOut, ih hothers]

/-- Placing stops at the first instruction that does not end at the top of memory or below. -/
theorem place_eq_error {instructions : List LocatedInstruction} {address : Nat}
    (haddress : address ≤ Memory.size) (h : place address instructions = .error problem) :
    ∃ before i after, instructions = before ++ i :: after ∧
      address + PlacedInstruction.totalSize (layOut address before) ≤ Memory.size ∧
      Memory.size < address + PlacedInstruction.totalSize (layOut address before) + i.size ∧
      problem = .placed (.programTooLarge i.mnemonic) i.line i.span := by
  induction instructions generalizing address with
  | nil => cases h
  | cons first rest ih =>
    rw [place] at h
    split at h
    · -- This instruction is the first that does not fit.
      rename_i hover
      cases h
      exact ⟨[], first, rest, rfl, haddress, hover, rfl⟩
    · rename_i hfits
      rcases Except.bind_eq_error.mp h with hothers | ⟨_, -, h⟩
      · obtain ⟨before, i, after, rfl, hroom, hover, hproblem⟩ := ih (by omega) hothers
        have hsize : address + PlacedInstruction.totalSize (layOut address (first :: before)) =
            address + first.size +
              PlacedInstruction.totalSize (layOut (address + first.size) before) :=
          (Nat.add_assoc _ _ _).symm
        exact ⟨first :: before, i, after, rfl, by omega, by omega, hproblem⟩
      · cases h

/-! ## Operand bytes -/

/-- An instruction with its operand bytes, or why it has none. -/
def resolveOne (p : Program) (i : PlacedInstruction) : Except Diagnostic PlacedInstruction :=
  match i.operand.bytes i.mnemonic i.next p.labelTarget? with
  | .error cause => .error (.placed cause i.line i.span)
  | .ok operandBytes => .ok { i with operandBytes }

theorem bytes_of_resolveOne {p : Program} {i : PlacedInstruction}
    (h : ∃ resolved, resolveOne p i = .ok resolved) :
    ∃ bytes, i.operand.bytes i.mnemonic i.next p.labelTarget? = .ok bytes := by
  obtain ⟨resolved, h⟩ := h
  unfold resolveOne at h
  split at h
  · cases h
  · rename_i bytes hbytes
    exact ⟨bytes, hbytes⟩

/-- Resolving encodes the operands one after the other. -/
theorem resolve_eq (p : Program) (placed : List PlacedInstruction) :
    resolve p placed = placed.mapM (resolveOne p) := by
  induction placed with
  | nil => rfl
  | cons i rest ih =>
    rw [resolve, List.mapM_cons, resolveOne, ih]
    cases i.operand.bytes i.mnemonic i.next p.labelTarget? with
    | error cause => rfl
    | ok operandBytes => rfl

/-- Resolving stops at the first instruction that has no bytes. -/
theorem resolve_eq_error {p : Program} {placed : List PlacedInstruction}
    (h : resolve p placed = .error problem) :
    ∃ before i after cause, placed = before ++ i :: after ∧
      (∀ j ∈ before, ∃ bytes, j.operand.bytes j.mnemonic j.next p.labelTarget? = .ok bytes) ∧
      i.operand.bytes i.mnemonic i.next p.labelTarget? = .error cause ∧
      problem = .placed cause i.line i.span := by
  rw [resolve_eq] at h
  obtain ⟨before, i, after, hsplit, hbefore, hi⟩ := Except.mapM_eq_error h
  unfold resolveOne at hi
  split at hi
  · rename_i cause hcause
    cases hi
    exact ⟨before, i, after, cause, hsplit, fun j hj => bytes_of_resolveOne (hbefore j hj), hcause,
      rfl⟩
  · cases hi

/-- If resolving does not stop, every instruction has bytes. -/
theorem bytes_of_resolve {p : Program} {placed lines : List PlacedInstruction}
    (h : resolve p placed = .ok lines) {i : PlacedInstruction} (hi : i ∈ placed) :
    ∃ bytes, i.operand.bytes i.mnemonic i.next p.labelTarget? = .ok bytes := by
  rw [resolve_eq] at h
  exact bytes_of_resolveOne ((Except.mapM_eq_ok h).2 i hi)

end Assembly
end Teach6809
