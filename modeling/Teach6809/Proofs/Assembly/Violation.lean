import Teach6809.Proofs.Assembly.Passes
import Teach6809.Proofs.SourceLine.Lines
import Teach6809.Proofs.SourceLine.Spelling

/-!
# Violations

The assembler has six rules. `Violates` says of a source text, a rule and a line that the line
violates the rule, whatever else is wrong with the text: labels are collected from the lines that
can be read, addresses are given to the instructions that can be checked. For each of the rules that
are checked before there are addresses, two statements follow: if the check answers, the rule is
violated nowhere (`_keeps`); if it fails, the first violation of the rule is reported
(`_reportsFirst`).
-/

namespace Teach6809
namespace Assembly

open Text

/-! ## Rules -/

/-- The rules of the assembler, in the order in which they are checked. -/
inductive Rule where
  /-- What stands before a colon is a label. -/
  | label
  /-- No label is declared twice. -/
  | unique
  /-- Every instruction is known and its operand fits. -/
  | instruction
  /-- There is a last instruction, and it is `END`. -/
  | ending
  /-- Every instruction lies below `$10000`. -/
  | room
  /-- Every short branch reaches its target. -/
  | reach
deriving DecidableEq

/-- How many rules are checked before a rule. -/
def Rule.rank : Rule → Nat
  | label => 0
  | unique => 1
  | instruction => 2
  | ending => 3
  | room => 4
  | reach => 5

theorem Rule.rank_inj {rule other : Rule} (h : rule.rank = other.rank) : rule = other := by
  cases rule <;> cases other <;> simp [rank] at h ⊢

/-- Something that is no label stands before the first colon of a line, outside a comment. -/
def MalformedLabel (text : List Char) : Prop :=
  ∃ name rest, text = name ++ ':' :: rest ∧ ':' ∉ name ∧ ';' ∉ name ∧
    SourceLine.isLabelName (upper (trim name)) = false

/-- The lines of a source text that can be read. -/
def readable (source : String) : List SourceLine :=
  (RawLine.ofSource source).filterMap fun raw => raw.read.toOption

/-- The instructions of these lines that can be checked, with the labels of all of them. -/
def checkable (source : String) : List LocatedInstruction :=
  (statements (readable source)).filterMap fun item =>
    (checkStatement (LabelTable.declared (readable source)) item.1 item.2).toOption

/-- These instructions one after the other. -/
def sketch (source : String) : Program where
  labels := LabelTable.declared (readable source)
  lineCount := (readable source).length
  lines := layOut origin.toNat (checkable source)

/-- A source text violates a rule on a line, with this kind of mistake. The only violation that
belongs to no line is that there is no instruction. -/
inductive Violates (source : String) : Rule → Option Nat → Kind → Prop where
  | label {raw : RawLine} : raw ∈ RawLine.ofSource source → MalformedLabel raw.stretch.text →
      Violates source .label (some raw.index) .malformed
  | unique {line other : SourceLine} {label again : Token} :
      line ∈ readable source → other ∈ readable source → other.index < line.index →
      other.label = some label → line.label = some again → again.text = label.text →
      Violates source .unique (some line.index) .duplicateLabel
  | unknown {line : SourceLine} {s : Statement} :
      line ∈ readable source → line.statement = some s → Instruction.ofStatement? s = none →
      Violates source .instruction (some line.index) .malformed
  | unfit {line : SourceLine} {s : Statement} {i : Instruction} {cause : Cause} :
      line ∈ readable source → line.statement = some s → Instruction.ofStatement? s = some i →
      i.check (LabelTable.declared (readable source)) = .error cause →
      Violates source .instruction (some line.index) cause.kind
  | empty : (∀ line ∈ readable source, line.statement = none) →
      Violates source .ending none .missingEnd
  | ending {line : SourceLine} {s : Statement} :
      line ∈ readable source → line.statement = some s →
      (∀ other ∈ readable source, line.index < other.index → other.statement = none) →
      Mnemonic.ofName? s.mnemonic.text ≠ some .stop →
      Violates source .ending (some line.index) .missingEnd
  | room {k : Nat} {i : PlacedInstruction} : (sketch source).lines[k]? = some i →
      Memory.size < (sketch source).position (k + 1) →
      Violates source .room (some i.line) .programTooLarge
  | reach {i : PlacedInstruction} {name : String} {target : Word} {cause : Cause} :
      i ∈ (sketch source).lines → i.mnemonic.isShortBranch = true → i.operand = .label name →
      (sketch source).labelTarget? name = some target → displacement i.next target = .error cause →
      Violates source .reach (some i.line) .branchOutOfRange

/-- A source text violates a rule nowhere. -/
def Keeps (source : String) (rule : Rule) : Prop := ∀ line kind, ¬ Violates source rule line kind

/-- A diagnostic reports the first violation of a rule. -/
structure ReportsFirst (source : String) (rule : Rule) (problem : Diagnostic) : Prop where
  violates : Violates source rule (problem.place.map Place.line) problem.cause.kind
  first : ∀ place, problem.place = some place →
    ∀ line kind, Violates source rule (some line) kind → place.line ≤ line

variable {source : String} {problem : Diagnostic}

/-! ## Ordered lists -/

section Ordered

variable {α : Type} {key : α → Nat} {xs before after : List α} {x y : α}

/-- In an ordered list, what is not before an element is not below it. -/
theorem key_le_of_not_mem (hsorted : xs.Pairwise fun x y => key x < key y)
    (hsplit : xs = before ++ x :: after) (hy : y ∈ xs) (hnot : y ∉ before) : key x ≤ key y := by
  subst hsplit
  rcases List.mem_append.mp hy with hy | hy
  · exact absurd hy hnot
  · rcases List.mem_cons.mp hy with rfl | hy
    · exact Nat.le_refl _
    · have htail := (List.pairwise_append.mp hsorted).2.1
      exact Nat.le_of_lt ((List.pairwise_cons.mp htail).1 y hy)

/-- In an ordered list, what is below an element is before it. -/
theorem mem_before_of_key_lt (hsorted : xs.Pairwise fun x y => key x < key y)
    (hsplit : xs = before ++ x :: after) (hy : y ∈ xs) (hlt : key y < key x) : y ∈ before := by
  by_contra hnot
  have := key_le_of_not_mem hsorted hsplit hy hnot
  omega

/-- In an ordered list, there is one element at most for every key. -/
theorem eq_of_key_eq (hsorted : xs.Pairwise fun x y => key x < key y) (hx : x ∈ xs) (hy : y ∈ xs)
    (h : key x = key y) : x = y := by
  obtain ⟨before, after, hsplit⟩ := List.append_of_mem hx
  subst hsplit
  obtain ⟨-, htail, hbelow⟩ := List.pairwise_append.mp hsorted
  rcases List.mem_append.mp hy with hy | hy
  · have := hbelow y hy x List.mem_cons_self
    omega
  · rcases List.mem_cons.mp hy with rfl | hy
    · rfl
    · have := (List.pairwise_cons.mp htail).1 y hy
      omega

/-- The last element of an ordered list is above all others. -/
theorem key_le_getLast (hsorted : xs.Pairwise fun x y => key x < key y)
    (hlast : xs.getLast? = some x) (hy : y ∈ xs) : key y ≤ key x := by
  obtain ⟨front, rfl⟩ := List.getLast?_eq_some_iff.mp hlast
  rcases List.mem_append.mp hy with hy | hy
  · exact Nat.le_of_lt ((List.pairwise_append.mp hsorted).2.2 y hy x (List.mem_singleton_self x))
  · rw [List.mem_singleton.mp hy]

end Ordered

/-! ## Labels -/

/-- Only a malformed label makes a line unreadable. -/
theorem malformedLabel_iff (index offset : Nat) (text : List Char) :
    MalformedLabel text ↔ ∃ problem, SourceLine.read index offset text = .error problem := by
  have hfails : (∃ problem, SourceLine.read index offset text = .error problem) ↔
      ∃ problem, SourceLine.readLabel index ⟨offset, upper (text.takeWhile (· != ';'))⟩ =
        .error problem := by
    rw [SourceLine.read_eq]
    cases SourceLine.readLabel index ⟨offset, upper (text.takeWhile (· != ';'))⟩ with
    | error other => simp [Except.map]
    | ok found => simp [Except.map]
  rw [hfails]
  constructor
  · intro h
    obtain ⟨name, rest, rfl, hcolon, hsemicolon, hname⟩ := h
    -- The label is before the comment, so it is in what is left of the line.
    have hcode : (name ++ ':' :: rest).takeWhile (· != ';') =
        name ++ ':' :: rest.takeWhile (· != ';') := by
      rw [List.takeWhile_append_of_pos (bne_of_not_mem hsemicolon),
        List.takeWhile_cons_of_pos (by decide)]
    have hread := SourceLine.readLabel_colon index offset (rest.takeWhile (· != ';')) hcolon
    rw [hcode]
    rwa [if_neg (by rw [hname]; decide)] at hread
  · intro h
    obtain ⟨problem, h⟩ := h
    by_cases hcolon : ':' ∈ text.takeWhile (· != ';')
    · obtain ⟨name, rest, hsplit, hname⟩ := List.eq_append_cons_of_mem hcolon
      have hread := SourceLine.readLabel_colon index offset rest hname
      rw [hsplit] at h
      split at hread
      · obtain ⟨span, code, hread, -⟩ := hread
        rw [h] at hread
        cases hread
      · rename_i hlabel
        refine ⟨name, rest ++ text.dropWhile (· != ';'), ?_, hname, ?_, by simpa using hlabel⟩
        · conv => lhs; rw [← List.takeWhile_append_dropWhile (p := (· != ';')) (l := text), hsplit]
          simp
        · intro hmem
          have hmem : ';' ∈ text.takeWhile (· != ';') := by
            rw [hsplit]
            exact List.mem_append_left _ hmem
          exact absurd (List.mem_takeWhile_imp hmem) (by decide)
    · rw [SourceLine.readLabel, if_neg fun hmem => hcolon ((mem_upper (by decide)).mp hmem)] at h
      cases h

/-- A line that cannot be read is blamed for its syntax. -/
theorem kind_of_read {index offset : Nat} {text : List Char}
    (h : SourceLine.read index offset text = .error problem) :
    problem.cause.kind = .malformed ∧ problem.place.map Place.line = some index := by
  unfold SourceLine.read at h
  rcases Except.bind_eq_error.mp h with hlabel | ⟨_, -, hrest⟩
  · unfold SourceLine.readLabel at hlabel
    split at hlabel
    · dsimp only at hlabel
      split at hlabel
      · cases hlabel
      · split at hlabel <;> (cases hlabel; exact ⟨rfl, rfl⟩)
    · cases hlabel
  · cases hrest

theorem ofSource_keeps {lines : List SourceLine} (h : SourceLine.ofSource source = .ok lines) :
    lines = readable source ∧ Keeps source .label := by
  rw [SourceLine.ofSource_eq] at h
  obtain ⟨hlines, hall⟩ := Except.mapM_eq_ok h
  refine ⟨hlines, ?_⟩
  intro line kind hviolates
  cases hviolates with
  | label hraw hmalformed =>
    obtain ⟨line, hline⟩ := hall _ hraw
    obtain ⟨problem, hproblem⟩ := (malformedLabel_iff _ _ _).mp hmalformed
    rw [RawLine.read, hproblem] at hline
    cases hline

theorem ofSource_reportsFirst (h : SourceLine.ofSource source = .error problem) :
    ReportsFirst source .label problem := by
  rw [SourceLine.ofSource_eq] at h
  obtain ⟨before, raw, after, hsplit, hbefore, hread⟩ := Except.mapM_eq_error h
  have hraw : raw ∈ RawLine.ofSource source := by simp [hsplit]
  have hsorted : (RawLine.ofSource source).Pairwise fun x y => x.index < y.index := by
    rw [← List.pairwise_map (f := RawLine.index) (R := (· < ·)), RawLine.ofSource, index_rawLines]
    exact List.pairwise_lt_range'
  obtain ⟨hkind, hline⟩ := kind_of_read hread
  refine ⟨?_, ?_⟩
  · rw [hkind, hline]
    exact .label hraw ((malformedLabel_iff _ _ _).mpr ⟨problem, hread⟩)
  · intro place hplace line kind hviolates
    rw [hplace] at hline
    rw [show place.line = raw.index from Option.some.inj hline]
    cases hviolates with
    | label hother hmalformed =>
      refine key_le_of_not_mem hsorted hsplit hother fun hmem => ?_
      -- A line before the reported one was read.
      obtain ⟨line, hline⟩ := hbefore _ hmem
      obtain ⟨problem, hproblem⟩ := (malformedLabel_iff _ _ _).mp hmalformed
      rw [RawLine.read, hproblem] at hline
      cases hline

section Readable

/-- The lines that can be read are in order, at least if all can. -/
theorem readable_sorted {lines : List SourceLine} (h : SourceLine.ofSource source = .ok lines) :
    (readable source).Pairwise fun x y => x.index < y.index := by
  have hindex := SourceLine.index_of_readAll h
  rw [(ofSource_keeps h).1] at hindex
  rw [← List.pairwise_map (f := SourceLine.index) (R := (· < ·)), hindex]
  exact List.pairwise_lt_range'

variable (hsorted : (readable source).Pairwise fun x y => x.index < y.index)
include hsorted

/-! ## Repeated labels -/

theorem ofLines_keeps {table : LabelTable}
    (h : LabelTable.ofLines (readable source) = .ok table) :
    table = LabelTable.declared (readable source) ∧ Keeps source .unique := by
  refine ⟨?_, ?_⟩
  · have hentries : table.entries = (LabelTable.declared (readable source)).entries :=
      LabelTable.collect_eq_ok h
    cases table with
    | mk entries => exact congrArg LabelTable.mk hentries
  · intro line kind hviolates
    cases hviolates with
    | unique hline hother hlt hlabel hagain hsame =>
      obtain ⟨before, after, hsplit⟩ := List.append_of_mem hline
      have hbefore := mem_before_of_key_lt hsorted hsplit hother hlt
      rw [LabelTable.ofLines, hsplit] at h
      exact LabelTable.collect_ne_ok hbefore hlabel hagain hsame h

theorem ofLines_reportsFirst (h : LabelTable.ofLines (readable source) = .error problem) :
    ReportsFirst source .unique problem := by
  obtain ⟨before, line, after, again, table, hsplit, hbefore, hagain, hdeclared, rfl⟩ :=
    LabelTable.collect_eq_error h
  have hline : line ∈ readable source := by simp [hsplit]
  refine ⟨?_, ?_⟩
  · -- The table holds the labels of the lines before.
    have hentries : table.entries = (LabelTable.declared before).entries :=
      LabelTable.collect_eq_ok hbefore
    rw [LabelTable.declares_iff, hentries, ← LabelTable.declares_iff] at hdeclared
    obtain ⟨other, hother, label, hlabel, hsame⟩ := LabelTable.declares_declared.mp hdeclared
    have hlt : other.index < line.index := by
      rw [hsplit] at hsorted
      exact (List.pairwise_append.mp hsorted).2.2 other hother line List.mem_cons_self
    exact .unique hline (by rw [hsplit]; exact List.mem_append_left _ hother) hlt hlabel hagain
      hsame.symm
  · intro place hplace n kind hviolates
    cases hplace
    cases hviolates with
    | @unique line' other label again' hline' hother hlt hlabel hagain' hsame =>
      refine key_le_of_not_mem hsorted hsplit hline' fun hmem => ?_
      -- Otherwise collecting would have stopped before the reported line.
      obtain ⟨front, back, rfl⟩ := List.append_of_mem hmem
      have hfirst : readable source = front ++ line' :: (back ++ line :: after) := by
        rw [hsplit, List.append_assoc]
        rfl
      have hfront := mem_before_of_key_lt hsorted hfirst hother hlt
      exact LabelTable.collect_ne_ok hfront hlabel hagain' hsame hbefore

/-! ## Instructions -/

theorem statements_sorted :
    (statements (readable source)).Pairwise fun x y => x.1 < y.1 := by
  unfold statements
  rw [List.pairwise_filterMap]
  refine hsorted.imp fun {line other} hlt item hitem item' hitem' => ?_
  obtain ⟨s, -, rfl⟩ := Option.map_eq_some_iff.mp hitem
  obtain ⟨s', -, rfl⟩ := Option.map_eq_some_iff.mp hitem'
  exact hlt

omit hsorted in
/-- What violates the rule for instructions is what is refused by the check. -/
theorem violates_instruction_iff {n : Nat} {kind : Kind} :
    Violates source .instruction (some n) kind ↔
      ∃ item ∈ statements (readable source), item.1 = n ∧ ∃ problem,
        checkStatement (LabelTable.declared (readable source)) item.1 item.2 = .error problem ∧
          problem.cause.kind = kind := by
  constructor
  · intro h
    cases h with
    | @unknown line s hline hs hunknown =>
      refine ⟨(line.index, s), mem_statements.mpr ⟨line, hline, hs, rfl⟩, rfl,
        .placed (.unknownMnemonic s.mnemonic.text) line.index s.mnemonic.span, ?_, rfl⟩
      simp only [checkStatement, hunknown]
    | @unfit line s i cause hline hs hi hcause =>
      refine ⟨(line.index, s), mem_statements.mpr ⟨line, hline, hs, rfl⟩, rfl,
        .placed cause line.index s.span, ?_, rfl⟩
      simp only [checkStatement, hi, hcause]
  · intro h
    obtain ⟨⟨n, s⟩, hitem, rfl, problem, hproblem, rfl⟩ := h
    obtain ⟨line, hline, hs, rfl⟩ := mem_statements.mp hitem
    rcases checkStatement_eq_error hproblem with ⟨hunknown, rfl⟩ | ⟨i, cause, hi, hcause, rfl⟩
    · exact .unknown hline hs hunknown
    · exact .unfit hline hs hi hcause

section Checked

variable {instructions : List LocatedInstruction}

omit hsorted in
theorem checkLines_keeps
    (h : checkLines (LabelTable.declared (readable source)) (readable source) = .ok instructions) :
    instructions = checkable source ∧ Keeps source .instruction := by
  rw [checkLines_eq] at h
  obtain ⟨hinstructions, hall⟩ := Except.mapM_eq_ok h
  refine ⟨hinstructions, ?_⟩
  intro line kind hviolates
  have hn : ∃ n, line = some n := by cases hviolates <;> exact ⟨_, rfl⟩
  obtain ⟨n, rfl⟩ := hn
  obtain ⟨item, hitem, -, problem, hproblem, -⟩ := violates_instruction_iff.mp hviolates
  obtain ⟨i, hi⟩ := hall item hitem
  rw [hproblem] at hi
  cases hi

theorem checkLines_reportsFirst
    (h : checkLines (LabelTable.declared (readable source)) (readable source) = .error problem) :
    ReportsFirst source .instruction problem := by
  rw [checkLines_eq] at h
  obtain ⟨before, item, after, hsplit, hbefore, hcheck⟩ := Except.mapM_eq_error h
  have hitem : item ∈ statements (readable source) := by simp [hsplit]
  have hplace : problem.place.map Place.line = some item.1 := by
    rcases checkStatement_eq_error hcheck with ⟨-, rfl⟩ | ⟨i, cause, -, -, rfl⟩
    · rfl
    · rfl
  refine ⟨?_, ?_⟩
  · rw [hplace]
    exact violates_instruction_iff.mpr ⟨item, hitem, rfl, problem, hcheck, rfl⟩
  · intro place hat n kind hviolates
    rw [hat] at hplace
    rw [show place.line = item.1 from Option.some.inj hplace]
    obtain ⟨other, hother, rfl, problem', hproblem, -⟩ := violates_instruction_iff.mp hviolates
    -- The lines above the one reported passed, and the lines are in order.
    refine key_le_of_not_mem (statements_sorted hsorted) hsplit hother fun hmem => ?_
    obtain ⟨i, hi⟩ := hbefore other hmem
    rw [hproblem] at hi
    cases hi

/-! ## The last instruction -/

omit hsorted in
/-- The last instruction is that of the last statement. -/
theorem last_of_checkLines
    (h : checkLines (LabelTable.declared (readable source)) (readable source) = .ok instructions)
    {last : LocatedInstruction} (hlast : instructions.getLast? = some last) :
    ∃ s, (statements (readable source)).getLast? = some (last.line, s) ∧
      Mnemonic.ofName? s.mnemonic.text = some last.mnemonic := by
  rw [checkLines_eq] at h
  obtain ⟨hlength, hat⟩ := Except.getElem?_of_mapM h
  rw [List.getLast?_eq_getElem?] at hlast
  obtain ⟨⟨n, s⟩, hitem, hcheck⟩ := hat _ _ hlast
  obtain ⟨hline, -, hknown, -⟩ := instruction_of_checkStatement hcheck
  obtain ⟨m, hm, hinstruction⟩ := Option.bind_eq_some_iff.mp hknown
  refine ⟨s, ?_, ?_⟩
  · rw [List.getLast?_eq_getElem?, ← hlength, hitem, hline]
  · rw [hm]
    exact congrArg (fun i => some i.mnemonic) (Option.some.inj hinstruction)

omit hsorted in
theorem statements_eq_nil_iff :
    statements (readable source) = [] ↔ ∀ line ∈ readable source, line.statement = none := by
  rw [statements, List.filterMap_eq_nil_iff]
  refine forall_congr' fun line => forall_congr' fun _ => ?_
  exact Option.map_eq_none_iff

/-- The line of the last statement is the last with a statement. -/
theorem last_statement_iff {line : SourceLine} {s : Statement} (hline : line ∈ readable source)
    (hs : line.statement = some s) :
    (statements (readable source)).getLast? = some (line.index, s) ↔
      ∀ other ∈ readable source, line.index < other.index → other.statement = none := by
  have hmem : (line.index, s) ∈ statements (readable source) :=
    mem_statements.mpr ⟨line, hline, hs, rfl⟩
  constructor
  · intro hlast other hother hlt
    cases hstatement : other.statement with
    | none => rfl
    | some t =>
      have hle := key_le_getLast (statements_sorted hsorted) hlast
        (mem_statements.mpr ⟨other, hother, hstatement, rfl⟩)
      dsimp only at hle
      omega
  · intro hafter
    -- The last statement is not before the line, and behind it there is none.
    have hne : statements (readable source) ≠ [] := List.ne_nil_of_mem hmem
    obtain ⟨⟨n, t⟩, hlast⟩ := Option.ne_none_iff_exists'.mp (mt List.getLast?_eq_none_iff.mp hne)
    have hle := key_le_getLast (statements_sorted hsorted) hlast hmem
    obtain ⟨other, hother, ht, rfl⟩ := mem_statements.mp (List.mem_of_getLast? hlast)
    have hindex : line.index = other.index := by
      by_contra hdiffers
      dsimp only at hle
      rw [hafter other hother (by omega)] at ht
      cases ht
    rw [hlast, eq_of_key_eq (statements_sorted hsorted) hmem (List.mem_of_getLast? hlast) hindex]

omit hsorted in
theorem statements_eq_nil
    (h : checkLines (LabelTable.declared (readable source)) (readable source) = .ok []) :
    statements (readable source) = [] := by
  rw [checkLines_eq] at h
  exact List.eq_nil_of_length_eq_zero (Except.getElem?_of_mapM h).1.symm

theorem requireEnd_keeps
    (hcheck : checkLines (LabelTable.declared (readable source)) (readable source) =
      .ok instructions) (h : requireEnd instructions = .ok ()) : Keeps source .ending := by
  obtain ⟨last, hlast, hstop⟩ := requireEnd_eq_ok h
  obtain ⟨s, hs, hname⟩ := last_of_checkLines hcheck hlast
  intro line kind hviolates
  cases hviolates with
  | empty hnone =>
    rw [statements_eq_nil_iff.mpr hnone] at hs
    cases hs
  | ending hline hstatement hafter hother =>
    rw [(last_statement_iff hsorted hline hstatement).mpr hafter] at hs
    obtain ⟨-, rfl⟩ := Prod.mk.inj (Option.some.inj hs)
    rw [hname, hstop] at hother
    exact hother rfl

theorem requireEnd_reportsFirst
    (hcheck : checkLines (LabelTable.declared (readable source)) (readable source) =
      .ok instructions) (h : requireEnd instructions = .error problem) :
    ReportsFirst source .ending problem := by
  rcases requireEnd_eq_error h with ⟨rfl, rfl⟩ | ⟨last, hlast, hstop, rfl⟩
  · refine ⟨.empty (statements_eq_nil_iff.mp (statements_eq_nil hcheck)), ?_⟩
    intro place hplace
    cases hplace
  · obtain ⟨s, hs, hname⟩ := last_of_checkLines hcheck hlast
    obtain ⟨line, hline, hstatement, hindex⟩ :=
      mem_statements.mp (List.mem_of_getLast? hs)
    rw [← hindex] at hs
    have hafter := (last_statement_iff hsorted hline hstatement).mp hs
    refine ⟨?_, ?_⟩
    · show Violates source .ending (some last.line) .missingEnd
      rw [← hindex]
      refine .ending hline hstatement hafter ?_
      rw [hname]
      exact fun heq => hstop (Option.some.inj heq)
    · intro place hplace n kind hviolates
      cases hplace
      show last.line ≤ n
      cases hviolates with
      | @ending other t hother hother' hlater hwrong =>
        -- A line before the last statement has a statement behind it.
        by_contra hlt
        rw [hlater line hline (by omega)] at hstatement
        cases hstatement

end Checked
end Readable

end Assembly
end Teach6809
