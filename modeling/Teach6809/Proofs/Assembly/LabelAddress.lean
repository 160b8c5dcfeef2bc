import Mathlib.Algebra.Ring.Nat
import Teach6809.Proofs.Assembly.Retyped
import Teach6809.Proofs.Program.Search

/-!
# Where labels are

A label stands for the address of the first instruction on or below its line, or for the end of the
program. It can be said without placing anything: the label comes after the instructions on the
lines above its own. How many bytes a line takes is read off the line (`SourceLine.size`), and the
address of the label is the origin plus the bytes of the lines above (`SourceLine.sizeAbove`). Main
statement: `label_address_of_assemble`.
-/

namespace Teach6809

/-! ## Sizes of lines -/

/-- How many bytes an instruction takes, if its mnemonic has its addressing mode. -/
def Instruction.size? (i : Instruction) : Option Nat :=
  (i.mnemonic.opcode? i.mode).map fun opcode => opcode.length + i.mnemonic.operandLength i.mode

namespace SourceLine

/-- How many bytes the instruction of a line takes. A line without instruction takes none. -/
def size (line : SourceLine) : Nat :=
  ((line.statement.bind Instruction.ofStatement?).bind Instruction.size?).getD 0

/-- How many bytes the lines above a line take together. -/
def sizeAbove (lines : List SourceLine) (n : Nat) : Nat :=
  ((lines.filter fun line => line.index < n).map size).sum

variable {lines : List SourceLine} {line : SourceLine} {n : Nat}

theorem sizeAbove_cons :
    sizeAbove (line :: lines) n =
      (if line.index < n then line.size else 0) + sizeAbove lines n := by
  by_cases hline : line.index < n
  · simp [sizeAbove, hline]
  · simp [sizeAbove, hline]

/-- Below more lines there are more bytes. -/
theorem sizeAbove_le {m : Nat} (h : n ≤ m) : sizeAbove lines n ≤ sizeAbove lines m := by
  induction lines with
  | nil => exact Nat.le_refl 0
  | cons line rest ih =>
    rw [sizeAbove_cons, sizeAbove_cons]
    apply Nat.add_le_add _ ih
    split
    · rw [if_pos (by omega)]
    · exact Nat.zero_le _

end SourceLine

namespace Assembly

/-- The size of a checked instruction is that of its statement. -/
theorem size_of_checkStatement {labels : LabelTable} {n : Nat} {s : Statement}
    {i : LocatedInstruction} (h : checkStatement labels n s = .ok i) :
    (Instruction.ofStatement? s).bind Instruction.size? = some i.size := by
  obtain ⟨-, -, hknown, hchecked⟩ := instruction_of_checkStatement h
  have hopcode : i.instruction.mnemonic.opcode? i.instruction.mode = some i.opcode :=
    (CheckedInstruction.sound_of_check hchecked).opcode
  rw [hknown, Option.bind_some, Instruction.size?, hopcode]
  rfl

/-- The checked instructions above a line take the bytes of the lines they are from. -/
theorem sizeAbove_of_checkLines {labels : LabelTable} {lines : List SourceLine}
    {instructions : List LocatedInstruction} (h : checkLines labels lines = .ok instructions)
    (n : Nat) :
    ((instructions.filter fun i => i.line < n).map fun i => i.size).sum =
      SourceLine.sizeAbove lines n := by
  induction lines generalizing instructions with
  | nil =>
    cases h
    rfl
  | cons line rest ih =>
    rw [checkLines] at h
    rw [SourceLine.sizeAbove_cons]
    split at h
    · -- Such a line takes no room and gives no instruction.
      rename_i hblank
      have hsize : line.size = 0 := by simp [SourceLine.size, hblank]
      rw [ih h, hsize, ite_self, Nat.zero_add]
    · rename_i s hs
      obtain ⟨first, hfirst, h⟩ := Except.bind_eq_ok.mp h
      obtain ⟨others, hothers, h⟩ := Except.bind_eq_ok.mp h
      cases h
      have hline := (checkStatement_eq_ok hfirst).1
      have hsize : line.size = first.size := by
        rw [SourceLine.size, hs, Option.bind_some, size_of_checkStatement hfirst, Option.getD_some]
      rw [← ih hothers, hsize, ← hline]
      by_cases habove : first.line < n
      · simp [habove]
      · simp [habove]

end Assembly

/-! ## Declarations -/

namespace LabelTable

variable {labels table : LabelTable} {lines : List SourceLine}

/-- A label leads to the line that declares it. -/
theorem line?_of_collect (h : labels.collect lines = .ok table) {line : SourceLine}
    (hline : line ∈ lines) {label : Token} (hlabel : line.label = some label) :
    table.line? label.text = some line.index := by
  obtain ⟨before, after, rfl⟩ := List.append_of_mem hline
  rw [collect_append] at h
  obtain ⟨middle, -, h⟩ := Except.bind_eq_ok.mp h
  rw [collect, hlabel] at h
  dsimp only at h
  split at h
  · cases h
  · rename_i hnew
    -- The labels before the line are others, and those behind it are added behind its own.
    have hbefore : middle.entries.lookup label.text = none :=
      Option.not_isSome_iff_eq_none.mp hnew
    rw [line?, collect_eq_ok h, add, List.lookup_append, List.lookup_append, hbefore]
    simp

/-- What no line declares leads nowhere. -/
theorem line?_of_forall_ne (h : ofLines lines = .ok table) {name : String}
    (hname : ∀ line ∈ lines, ∀ label, line.label = some label → label.text ≠ name) :
    table.line? name = none := by
  have hentries : table.entries = (declared lines).entries := collect_eq_ok h
  have hundeclared : ¬ table.declares name = true := by
    rw [declares_iff, hentries, ← declares_iff, declares_declared]
    intro hdeclared
    obtain ⟨line, hline, label, hlabel, hsame⟩ := hdeclared
    exact hname line hline label hlabel hsame
  exact Option.not_isSome_iff_eq_none.mp hundeclared

end LabelTable

/-! ## Addresses of labels -/

namespace PlacedInstruction

theorem totalSize_eq_sum (is : List PlacedInstruction) :
    totalSize is = (is.map fun i => i.size).sum := by
  induction is with
  | nil => rfl
  | cons i rest ih => rw [totalSize, ih, List.map_cons, List.sum_cons]

/-- In the order of the lines, the instructions above a line are the first ones. -/
theorem takeWhile_line {is : List PlacedInstruction}
    (h : is.Pairwise fun i j => i.line < j.line) (n : Nat) :
    is.takeWhile (fun i => i.line < n) = is.filter fun i => i.line < n := by
  induction is with
  | nil => rfl
  | cons i rest ih =>
    obtain ⟨hfirst, hrest⟩ := List.pairwise_cons.mp h
    by_cases habove : i.line < n
    · simp [habove, ih hrest]
    · -- What comes later is not above the line either.
      have hnone : rest.filter (fun j => j.line < n) = [] := by
        apply List.filter_eq_nil_iff.mpr
        intro j hj
        have := hfirst j hj
        simp only [decide_eq_true_eq]
        omega
      simp [habove, hnone]

end PlacedInstruction

namespace Program.WellFormed

variable {p : Program}

/-- The position on a line is the origin plus the bytes of the lines above. -/
theorem position_indexFromLine (hp : p.WellFormed) {lines : List SourceLine}
    (h : Assembly.checkLines p.labels lines = .ok (p.lines.map fun i => i.toLocatedInstruction))
    (n : Nat) : p.position (p.indexFromLine n) = 0xFE00 + SourceLine.sizeAbove lines n := by
  have hprefix := List.takeWhile_prefix (l := p.lines) fun i => decide (i.line < n)
  have htake : p.lines.take (p.indexFromLine n) = p.lines.filter fun i => i.line < n := by
    rw [← PlacedInstruction.takeWhile_line hp.ordered]
    exact (List.prefix_iff_eq_take.mp hprefix).symm
  rw [← Assembly.sizeAbove_of_checkLines h, Program.position, htake,
    PlacedInstruction.totalSize_eq_sum, List.filter_map, List.map_map]
  rfl

end Program.WellFormed

/-- In an assembled program, the address of a label is the origin plus the bytes of all lines above
the line that declares it, and `$10000` at most. Other names have no address, and of two labels the
one on the later line never has the smaller address. -/
theorem label_address_of_assemble {source : String} {p : Program} (h : assemble source = .ok p) :
    ∃ lines, SourceLine.ofSource source = .ok lines ∧
      (∀ line ∈ lines, ∀ label, line.label = some label →
        ∃ address, p.labelAddress? label.text = some address ∧
          address = 0xFE00 + SourceLine.sizeAbove lines line.index ∧ address ≤ 0x10000) ∧
      (∀ name, (∀ line ∈ lines, ∀ label, line.label = some label → label.text ≠ name) →
        p.labelAddress? name = none) ∧
      ∀ upper ∈ lines, ∀ lower ∈ lines, upper.index < lower.index →
        ∀ first second address address',
          upper.label = some first → p.labelAddress? first.text = some address →
          lower.label = some second → p.labelAddress? second.text = some address' →
          address ≤ address' := by
  have hp := assemble_wellFormed h
  obtain ⟨lines, hlines, hlabels, hcheck⟩ := Assembly.exists_checkLines_of_assemble h
  -- A label stands at the first instruction from its line on, so its address is a sum of sizes.
  have haddress : ∀ line ∈ lines, ∀ label, line.label = some label →
      p.labelAddress? label.text = some (0xFE00 + SourceLine.sizeAbove lines line.index) := by
    intro line hline label hlabel
    rw [hp.laid.labelAddress?_eq, LabelTable.line?_of_collect hlabels hline hlabel,
      Option.map_some, hp.position_indexFromLine hcheck]
  refine ⟨lines, hlines, ?_, ?_, ?_⟩
  · intro line hline label hlabel
    refine ⟨_, haddress line hline label hlabel, rfl, ?_⟩
    rw [← hp.position_indexFromLine hcheck]
    have hend := Program.position_le (p.indexFromLine_le line.index) (Nat.le_refl _)
    exact Nat.le_trans hend hp.laid.room
  · intro name hname
    rw [hp.laid.labelAddress?_eq, LabelTable.line?_of_forall_ne hlabels hname]
    rfl
  · intro upper hupper lower hlower hlt first second address address' hfirst hat hsecond hat'
    rw [haddress upper hupper first hfirst] at hat
    rw [haddress lower hlower second hsecond] at hat'
    cases hat
    cases hat'
    exact Nat.add_le_add_left (SourceLine.sizeAbove_le (Nat.le_of_lt hlt)) _

/-- A label before an instruction, one alone with blank lines and a comment below it, and one below
`END`. -/
theorem label_address_of_assemble_past :
    let source := "LOOP: LDX #$1234\nREST:\n\n ; to the end\n BNE LOOP\n END\nPAST:"
    ∃ p, assemble source = .ok p ∧
      ["LOOP", "REST", "PAST", "HERE"].map p.labelAddress? =
        [some 0xFE00, some 0xFE03, some 0xFE06, none] ∧
      ∃ lines, SourceLine.ofSource source = .ok lines ∧
        ∀ line ∈ lines, ∀ label, line.label = some label →
          ∃ address, p.labelAddress? label.text = some address ∧
            address = 0xFE00 + SourceLine.sizeAbove lines line.index ∧ address ≤ 0x10000 := by
  intro source
  obtain ⟨p, hp, haddresses⟩ := Except.exists_of_any (x := assemble source)
    (q := fun p => ["LOOP", "REST", "PAST", "HERE"].map p.labelAddress? ==
      [some 0xFE00, some 0xFE03, some 0xFE06, none]) (by decide +kernel)
  obtain ⟨lines, hlines, hdeclared, -⟩ := label_address_of_assemble hp
  exact ⟨p, hp, by simpa using haddresses, lines, hlines, hdeclared⟩

end Teach6809
