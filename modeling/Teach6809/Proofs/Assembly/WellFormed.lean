import Teach6809.Assembly
import Teach6809.Proofs.Program.Layout

/-!
# Assembled programs are well formed

Each pass of the assembler is followed by what it leaves behind: reading numbers the lines, checking
keeps their order and makes every instruction sound, placing gives every instruction its position,
resolving adds operand bytes and changes nothing else. `Assembly.draft` is all passes but the last,
and `Program.Drafted` is what is known after them. `assemble_wellFormed` puts the passes together;
later modules know an assembled program by `Program.WellFormed` only.
-/

namespace Teach6809

/-! ## Reading -/

namespace SourceLine

theorem index_of_read {index offset : Nat} {text : List Char} {line : SourceLine}
    (h : read index offset text = .ok line) : line.index = index := by
  unfold read at h
  obtain ⟨⟨label, rest⟩, -, h⟩ := Except.bind_eq_ok.mp h
  cases h
  rfl

/-- Lines are numbered without gaps. -/
theorem index_of_readAll {texts : List (List Char)} :
    ∀ {index offset : Nat} {lines : List SourceLine}, readAll index offset texts = .ok lines →
      lines.map (fun line => line.index) = List.range' index lines.length := by
  induction texts with
  | nil =>
    intro index offset lines h
    cases h
    rfl
  | cons text rest ih =>
    intro index offset lines h
    rw [readAll] at h
    obtain ⟨line, hline, h⟩ := Except.bind_eq_ok.mp h
    obtain ⟨others, hothers, h⟩ := Except.bind_eq_ok.mp h
    cases h
    rw [List.map_cons, index_of_read hline, ih hothers, List.length_cons, List.range'_succ]

end SourceLine

namespace Assembly

/-! ## Checking -/

theorem checkStatement_eq_ok {labels : LabelTable} {line : Nat} {s : Statement}
    {i : LocatedInstruction} (h : checkStatement labels line s = .ok i) :
    i.line = line ∧ i.Sound labels := by
  unfold checkStatement at h
  split at h
  · cases h
  · split at h
    · cases h
    · rename_i checked hchecked
      cases h
      exact ⟨rfl, CheckedInstruction.sound_of_check hchecked⟩

/-- Checked instructions are sound, and come in the order of their lines. -/
theorem checkLines_eq_ok {labels : LabelTable} {lines : List SourceLine} :
    ∀ {instructions : List LocatedInstruction}, checkLines labels lines = .ok instructions →
      (instructions.map fun i => i.line).Sublist (lines.map fun line => line.index) ∧
        ∀ i ∈ instructions, i.Sound labels := by
  induction lines with
  | nil =>
    intro instructions h
    cases h
    exact ⟨.slnil, fun i hi => absurd hi List.not_mem_nil⟩
  | cons line rest ih =>
    intro instructions h
    rw [checkLines] at h
    split at h
    · obtain ⟨hsub, hsound⟩ := ih h
      exact ⟨hsub.cons _, hsound⟩
    · obtain ⟨first, hfirst, h⟩ := Except.bind_eq_ok.mp h
      obtain ⟨others, hothers, h⟩ := Except.bind_eq_ok.mp h
      cases h
      obtain ⟨hline, hsound⟩ := checkStatement_eq_ok hfirst
      obtain ⟨hsub, hothersSound⟩ := ih hothers
      refine ⟨?_, ?_⟩
      · rw [List.map_cons, List.map_cons, hline]
        exact hsub.cons_cons _
      · intro i hi
        rcases List.mem_cons.mp hi with rfl | hi
        · exact hsound
        · exact hothersSound i hi

theorem requireEnd_eq_ok {instructions : List LocatedInstruction}
    (h : requireEnd instructions = .ok ()) :
    ∃ last, instructions.getLast? = some last ∧ last.mnemonic = .stop := by
  unfold requireEnd at h
  split at h
  · cases h
  · rename_i last hlast
    split at h
    · rename_i hstop
      exact ⟨last, hlast, hstop⟩
    · cases h

/-! ## Placing -/

/-- Placing keeps the instructions, gives each the sum of the sizes before it as its address, and
stays below the top of memory. -/
theorem place_eq_ok {instructions : List LocatedInstruction} :
    ∀ {address : Nat} {placed : List PlacedInstruction},
      place address instructions = .ok placed → address ≤ Memory.size →
      placed.map (fun i => i.toLocatedInstruction) = instructions ∧
        (∀ k i, placed[k]? = some i →
          i.address.toNat = address + PlacedInstruction.totalSize (placed.take k)) ∧
        address + PlacedInstruction.totalSize placed ≤ Memory.size := by
  induction instructions with
  | nil =>
    intro address placed h haddress
    cases h
    exact ⟨rfl, fun k i hi => by simp at hi, haddress⟩
  | cons first rest ih =>
    -- The rest is placed from the address after the first instruction, which is within memory.
    intro address placed h haddress
    rw [place] at h
    split at h
    · cases h
    · rename_i hfits
      obtain ⟨others, hothers, h⟩ := Except.bind_eq_ok.mp h
      cases h
      obtain ⟨hsame, hat, htop⟩ := ih hothers (by omega)
      refine ⟨by rw [List.map_cons, hsame], ?_, ?_⟩
      · intro k i hk
        cases k with
        | zero =>
          cases hk
          have hsize := first.size_pos
          exact UInt16.toNat_ofNat_of_lt' (show address < Memory.size by omega)
        | succ k =>
          rw [List.getElem?_cons_succ] at hk
          rw [hat k i hk, List.take_succ_cons, PlacedInstruction.totalSize]
          exact Nat.add_assoc _ _ _
      · rw [PlacedInstruction.totalSize, ← Nat.add_assoc]
        exact htop

end Assembly

/-! ## Resolving -/

/-- An instruction without its operand bytes. -/
def PlacedInstruction.bare (i : PlacedInstruction) : PlacedInstruction :=
  { i with operandBytes := [] }

theorem PlacedInstruction.totalSize_map_bare (is : List PlacedInstruction) :
    totalSize (is.map bare) = totalSize is := by
  induction is with
  | nil => rfl
  | cons i rest ih =>
    show i.bare.size + totalSize (rest.map bare) = i.size + totalSize rest
    rw [ih]
    rfl

namespace Program

/-- A program without operand bytes. -/
def bare (p : Program) : Program := { p with lines := p.lines.map PlacedInstruction.bare }

theorem position_bare (p : Program) (k : Nat) : p.bare.position k = p.position k := by
  unfold position bare
  rw [← List.map_take, PlacedInstruction.totalSize_map_bare]

/-- Where labels are does not depend on operand bytes. -/
theorem labelTarget?_bare (p : Program) : p.bare.labelTarget? = p.labelTarget? :=
  p.labelTarget?_map fun _ => ⟨rfl, rfl, rfl⟩

theorem laid_bare {p : Program} : p.bare.Laid ↔ p.Laid := by
  have hlength : p.bare.lines.length = p.lines.length := List.length_map _
  constructor
  · intro hp
    refine ⟨fun k i hk => ?_, ?_⟩
    · have hbare : p.bare.lines[k]? = some i.bare := by
        rw [bare, List.getElem?_map, hk]
        rfl
      rw [← position_bare, ← hp.address k _ hbare]
      rfl
    · rw [← position_bare, ← hlength]
      exact hp.room
  · intro hp
    refine ⟨fun k i hk => ?_, ?_⟩
    · rw [bare, List.getElem?_map] at hk
      obtain ⟨i, hi, rfl⟩ := Option.map_eq_some_iff.mp hk
      rw [position_bare, ← hp.address k i hi]
      rfl
    · rw [position_bare, hlength]
      exact hp.room

end Program

/-- Resolving changes operand bytes only, and those it sets are the encoded operands. -/
theorem Assembly.resolve_eq_ok {p : Program} {placed : List PlacedInstruction} :
    ∀ {resolved : List PlacedInstruction}, resolve p placed = .ok resolved →
      resolved.map PlacedInstruction.bare = placed.map PlacedInstruction.bare ∧
        ∀ i ∈ resolved, i.operand.bytes i.mnemonic i.next p.labelTarget? = .ok i.operandBytes := by
  induction placed with
  | nil =>
    intro resolved h
    cases h
    exact ⟨rfl, fun i hi => absurd hi List.not_mem_nil⟩
  | cons first rest ih =>
    intro resolved h
    rw [resolve] at h
    split at h
    · cases h
    · rename_i operandBytes hbytes
      obtain ⟨others, hothers, h⟩ := Except.bind_eq_ok.mp h
      cases h
      obtain ⟨hsame, hresolved⟩ := ih hothers
      refine ⟨?_, ?_⟩
      · rw [List.map_cons, List.map_cons, hsame]
        rfl
      · intro i hi
        rcases List.mem_cons.mp hi with rfl | hi
        · exact hbytes
        · exact hresolved i hi

/-! ## All passes -/

/-- All passes but the last: every instruction has its place and no operand bytes. -/
def Assembly.draft (source : String) : Except Diagnostic Program := do
  let lines ← SourceLine.ofSource source
  let labels ← LabelTable.ofLines lines
  let instructions ← checkLines labels lines
  requireEnd instructions
  let placed ← place origin.toNat instructions
  return { labels, lineCount := lines.length, lines := placed }

theorem Assembly.assemble_eq (source : String) :
    assemble source =
      draft source >>= fun p => (resolve p p.lines).map fun lines => { p with lines } := by
  unfold assemble draft
  simp only [bind_assoc, pure_bind]
  rfl

/-- What is known of a program before its operands are encoded. -/
structure Program.Drafted (p : Program) : Prop where
  sound : ∀ i ∈ p.lines, i.Sound p.labels
  ordered : p.lines.Pairwise fun i j => i.line < j.line
  within : ∀ i ∈ p.lines, i.line < p.lineCount
  ending : ∃ last, p.lines.getLast? = some last ∧ last.mnemonic = .stop
  laid : p.Laid

/-- What is known of an assembled program. -/
structure Program.WellFormed (p : Program) : Prop extends p.Drafted where
  resolved : ∀ i ∈ p.lines, i.operand.bytes i.mnemonic i.next p.labelTarget? = .ok i.operandBytes

/-- The operand bytes do not matter to what is known before there are any. -/
theorem Program.drafted_bare {p : Program} : p.bare.Drafted ↔ p.Drafted := by
  have hlines : p.bare.lines = p.lines.map PlacedInstruction.bare := rfl
  have hall : ∀ q : PlacedInstruction → Prop,
      (∀ i ∈ p.bare.lines, q i) ↔ ∀ i ∈ p.lines, q i.bare := by
    intro q
    rw [hlines]
    exact List.forall_mem_map
  have hordered : (p.bare.lines.Pairwise fun i j => i.line < j.line) ↔
      p.lines.Pairwise fun i j => i.line < j.line := by
    rw [hlines, List.pairwise_map]
    exact Iff.rfl
  have hending : (∃ last, p.bare.lines.getLast? = some last ∧ last.mnemonic = .stop) ↔
      ∃ last, p.lines.getLast? = some last ∧ last.mnemonic = .stop := by
    rw [hlines, List.getLast?_map]
    cases p.lines.getLast? with
    | none => simp
    | some last => simp [PlacedInstruction.bare]
  constructor
  · intro hp
    exact ⟨(hall _).mp hp.sound, hordered.mp hp.ordered, (hall _).mp hp.within,
      hending.mp hp.ending, laid_bare.mp hp.laid⟩
  · intro hp
    exact ⟨(hall _).mpr hp.sound, hordered.mpr hp.ordered, (hall _).mpr hp.within,
      hending.mpr hp.ending, laid_bare.mpr hp.laid⟩

/-- Numbered lines come in strictly increasing order, also when some are left out. -/
theorem Assembly.lines_of_checkLines {source : String} {lines : List SourceLine}
    {labels : LabelTable} {instructions : List LocatedInstruction}
    (hlines : SourceLine.ofSource source = .ok lines)
    (h : checkLines labels lines = .ok instructions) :
    (instructions.Pairwise fun i j => i.line < j.line) ∧
      ∀ i ∈ instructions, i.line < lines.length := by
  have hsub := (checkLines_eq_ok h).1
  rw [SourceLine.index_of_readAll hlines] at hsub
  constructor
  · have hrange : (List.range' 0 lines.length).Pairwise (· < ·) := List.pairwise_lt_range'
    exact List.pairwise_map.mp (hrange.sublist hsub)
  · intro i hi
    have hline := hsub.subset (List.mem_map_of_mem hi)
    rw [List.mem_range'_1] at hline
    omega

/-- Checking and placing leave a program of which only the operand bytes are missing. -/
theorem Assembly.drafted_of_draft {source : String} {p : Program} (h : draft source = .ok p) :
    p.Drafted := by
  unfold draft at h
  obtain ⟨lines, hlines, h⟩ := Except.bind_eq_ok.mp h
  obtain ⟨labels, -, h⟩ := Except.bind_eq_ok.mp h
  obtain ⟨instructions, hcheck, h⟩ := Except.bind_eq_ok.mp h
  obtain ⟨⟨⟩, hend, h⟩ := Except.bind_eq_ok.mp h
  obtain ⟨placed, hplace, h⟩ := Except.bind_eq_ok.mp h
  cases h
  have hsound := (checkLines_eq_ok hcheck).2
  obtain ⟨hordered, hwithin⟩ := lines_of_checkLines hlines hcheck
  obtain ⟨last, hlast, hstop⟩ := requireEnd_eq_ok hend
  obtain ⟨hkept, haddress, hroom⟩ := place_eq_ok hplace (by decide)
  -- Placing adds addresses to the checked instructions and changes nothing.
  have hmem : ∀ i ∈ placed, i.toLocatedInstruction ∈ instructions := by
    intro i hi
    rw [← hkept]
    exact List.mem_map_of_mem hi
  refine ⟨fun i hi => hsound _ (hmem i hi), ?_, fun i hi => hwithin _ (hmem i hi), ?_, haddress, ?_⟩
  · rw [← hkept, List.pairwise_map] at hordered
    exact hordered
  · rw [← hkept, List.getLast?_map] at hlast
    obtain ⟨i, hi, rfl⟩ := Option.map_eq_some_iff.mp hlast
    exact ⟨i, hi, hstop⟩
  · unfold Program.position
    rw [List.take_length]
    exact hroom

theorem Assembly.bare_of_resolve {p : Program} {lines : List PlacedInstruction}
    (h : resolve p p.lines = .ok lines) : ({ p with lines } : Program).bare = p.bare := by
  unfold Program.bare
  rw [(resolve_eq_ok h).1]

/-- Resolving adds operand bytes, so what was known before is still true. -/
theorem Assembly.wellFormed_of_resolve {p : Program} {lines : List PlacedInstruction}
    (hp : p.Drafted) (h : resolve p p.lines = .ok lines) :
    ({ p with lines } : Program).WellFormed := by
  have hbare := bare_of_resolve h
  refine ⟨?_, ?_⟩
  · rw [← Program.drafted_bare, hbare, Program.drafted_bare]
    exact hp
  · rw [← Program.labelTarget?_bare, hbare, Program.labelTarget?_bare]
    exact (resolve_eq_ok h).2

theorem assemble_wellFormed {source : String} {p : Program} (h : assemble source = .ok p) :
    p.WellFormed := by
  rw [Assembly.assemble_eq] at h
  obtain ⟨draft, hdraft, h⟩ := Except.bind_eq_ok.mp h
  obtain ⟨lines, hlines, rfl⟩ := Except.map_eq_ok.mp h
  exact Assembly.wellFormed_of_resolve (Assembly.drafted_of_draft hdraft) hlines

/-- `END` is the last instruction, so every other one is followed by an instruction. -/
theorem Program.WellFormed.exists_next {p : Program} (hp : p.WellFormed) {k : Nat}
    {i : PlacedInstruction} (hk : p.lines[k]? = some i) (hstop : i.mnemonic ≠ .stop) :
    ∃ j, p.lines[k + 1]? = some j ∧ i.next = j.address := by
  rw [hp.laid.next_eq hk, addressOf]
  cases hnext : p.lines[k + 1]? with
  | some j => exact ⟨j, rfl, rfl⟩
  | none =>
    have hlt := length_of_getElem? hk
    have hle := List.getElem?_eq_none_iff.mp hnext
    obtain ⟨last, hlast, hend⟩ := hp.ending
    rw [List.getLast?_eq_getElem?, show p.lines.length - 1 = k by omega, hk] at hlast
    cases hlast
    exact absurd hend hstop

end Teach6809
