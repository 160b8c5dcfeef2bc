import Teach6809.Proofs.Program.Image
import Teach6809.Proofs.Program.Search

/-!
# How assembled programs are laid out

`Program.Layout` lists what can be relied on about the places of instructions: their order in the
source text, their addresses without gaps or overlaps, their lengths, and the search by address.
Main statement: `assemble` makes no other programs.
-/

namespace Teach6809

/-- Instructions in the order of the source text, one directly after the other from the origin on,
each as long as its encoding, and `END` last. -/
structure Program.Layout (p : Program) : Prop where
  ordered : p.lines.Pairwise fun i j => i.line < j.line
  within : ∀ i ∈ p.lines, i.line < p.lineCount
  ending : ∃ last, p.lines.getLast? = some last ∧ last.mnemonic = .stop
  first : ∃ i, p.lines[0]? = some i ∧ i.address = 0xFE00
  following : ∀ k i j, p.lines[k]? = some i → p.lines[k + 1]? = some j →
    j.address.toNat = i.address.toNat + i.size
  /-- The size is that of the instruction in the opcode map, and that of its bytes. -/
  sizes : ∀ i ∈ p.lines, i.mnemonic.opcode? i.mode = some i.opcode ∧
    i.size = i.opcode.length + i.mnemonic.operandLength i.mode ∧
    i.bytes = i.head ++ i.operandBytes ∧ i.bytes.length = i.size
  stop_le : p.stop ≤ 0x10000
  image : origin.toNat + p.image.length = p.stop
  indexOf : ∀ (address : Word) k,
    p.indexOf? address = some k ↔ ∃ i, p.lines[k]? = some i ∧ i.address = address
  /-- Addresses and lines are in order, so a search by halves finds the same. -/
  halving : ∀ (address : Word) line,
    p.bisectAddress? address = p.indexOf? address ∧ p.bisectLine line = p.indexFromLine line

/-- A well-formed program has a first instruction, and it is at the origin. -/
theorem Program.WellFormed.first {p : Program} (hp : p.WellFormed) :
    ∃ i, p.lines[0]? = some i ∧ i.address = origin := by
  obtain ⟨last, hlast, -⟩ := hp.ending
  have hne : p.lines ≠ [] := List.ne_nil_of_mem (List.mem_of_getLast? hlast)
  have hlength : 0 < p.lines.length := List.length_pos_iff.mpr hne
  refine ⟨p.lines[0], List.getElem?_eq_getElem hlength, ?_⟩
  rw [← UInt16.toNat_inj, hp.laid.address 0 _ (List.getElem?_eq_getElem hlength), position_zero]

/-- Every assembled program is laid out from the origin to at most the top of memory. -/
theorem layout_of_assemble {source : String} {p : Program} (h : assemble source = .ok p) :
    p.Layout := by
  have hp := assemble_wellFormed h
  refine ⟨hp.ordered, hp.within, hp.ending, hp.first, ?_, ?_, ?_, hp.length_image, ?_,
    fun address line => ⟨hp.bisectAddress?_eq address, hp.bisectLine_eq line⟩⟩
  · intro k i j hi hj
    rw [hp.laid.address k i hi, hp.laid.address (k + 1) j hj, Program.position_succ hi]
  · intro i hi
    exact ⟨(hp.sound i hi).opcode, rfl, rfl, hp.length_bytes hi⟩
  · rw [hp.laid.stop_eq]
    exact hp.laid.room
  · intro address k
    exact hp.laid.indexOf?_eq_some_iff

/-- A program with a blank line, a branch back, both pages of opcodes and a label below `END`. -/
theorem layout_of_assemble_subroutine :
    ∃ p, assemble
        "LOOP: ldy #$1234\n\n tfr a,b ; swap\n BNE LOOP\n LDA -1,X\n JMP PAST\nEND\nPAST:" = .ok p ∧
      p.stop = 0xFE0F ∧ p.Layout := by
  obtain ⟨p, hp, hstop⟩ := Except.exists_of_any
    (x := assemble
      "LOOP: ldy #$1234\n\n tfr a,b ; swap\n BNE LOOP\n LDA -1,X\n JMP PAST\nEND\nPAST:")
    (q := fun p => p.stop == 0xFE0F) (by decide +kernel)
  exact ⟨p, hp, by simpa using hstop, layout_of_assemble hp⟩

end Teach6809
