import Teach6809.Proofs.Assembly.Passes

/-!
# The range of short branches

A short branch has one byte for the distance from the address after it to its target. The last pass
of the assembler takes this distance between addresses of the machine, which have sixteen bits, and
so a label at `$10000`, below the last instruction of a program that fills the memory, counts as
zero and is out of reach of every branch. Main statement: this is the only difference from measuring
true distances. `Assembly.draft` is the assembler without its last pass.
-/

namespace Teach6809

/-! ## Targets of branches -/

/-- The address of the label that a short branch names, which may be `$10000`. -/
def Program.branchTarget? (p : Program) (i : PlacedInstruction) : Option Nat :=
  match i.operand with
  | .label name => if i.mnemonic.isShortBranch then p.labelAddress? name else none
  | _ => none

namespace PlacedInstruction

/-- How far a target is from the address after an instruction, as a number. -/
def distance (i : PlacedInstruction) (target : Nat) : Int := target - (i.address.toNat + i.size)

/-- Whether a signed byte holds the distance to a target. -/
def Reaches (i : PlacedInstruction) (target : Nat) : Prop :=
  -128 ≤ i.distance target ∧ i.distance target ≤ 127

instance (i : PlacedInstruction) (target : Nat) : Decidable (i.Reaches target) :=
  inferInstanceAs (Decidable (_ ∧ _))

end PlacedInstruction

namespace Program

variable {p : Program} {i : PlacedInstruction} {target : Nat}

theorem branchTarget?_eq_some (h : p.branchTarget? i = some target) :
    ∃ name, i.operand = .label name ∧ i.mnemonic.isShortBranch = true ∧
      p.labelAddress? name = some target := by
  unfold branchTarget? at h
  split at h
  · rename_i name hname
    split at h
    · rename_i hshort
      exact ⟨name, hname, hshort, h⟩
    · cases h
  · cases h

/-- The operand bytes of a short branch are its displacement. -/
theorem operandBytes_of_branch (htarget : p.branchTarget? i = some target) :
    i.operand.bytes i.mnemonic i.next p.labelTarget? =
      (displacement i.next (UInt16.ofNat target)).map fun byte => [byte] := by
  obtain ⟨name, hoperand, hshort, haddress⟩ := branchTarget?_eq_some htarget
  have hlabel : p.labelTarget? name = some (UInt16.ofNat target) := by
    rw [labelTarget?, haddress]
    rfl
  rw [hoperand]
  simp only [Operand.bytes, hlabel]
  exact if_pos hshort

namespace Drafted

/-- Only the last instruction can end at the top of memory, and it is no branch. -/
theorem next_toNat (hp : p.Drafted) (hi : i ∈ p.lines) (hstop : i.mnemonic ≠ .stop) :
    i.next.toNat = i.address.toNat + i.size := by
  obtain ⟨k, hk⟩ := List.getElem?_of_mem hi
  have hlt := length_of_getElem? hk
  have hbefore : k + 1 < p.lines.length := by
    apply Nat.lt_of_le_of_ne hlt
    intro hlast
    obtain ⟨last, hgetLast, hmnemonic⟩ := hp.ending
    rw [List.getLast?_eq_getElem?, show p.lines.length - 1 = k by omega, hk] at hgetLast
    cases hgetLast
    exact hstop hmnemonic
  -- So another instruction follows, and it starts below the top of memory.
  have hposition := position_lt hbefore (Nat.le_refl _)
  have hroom := hp.laid.room
  rw [hp.laid.next_eq hk, hp.laid.addressOf_eq hlt,
    UInt16.toNat_ofNat_of_lt' (Nat.lt_of_lt_of_le hposition hroom), position_succ hk,
    hp.laid.address k i hk]

theorem labelAddress?_le (hp : p.Drafted) {name : String}
    (h : p.labelAddress? name = some target) : target ≤ 0x10000 := by
  rw [hp.laid.labelAddress?_eq] at h
  obtain ⟨line, -, rfl⟩ := Option.map_eq_some_iff.mp h
  exact Nat.le_trans (position_le (p.indexFromLine_le line) (Nat.le_refl _)) hp.laid.room

/-- A short branch has a displacement exactly if its target is below `$10000` and within reach, and
the displacement is the true distance. -/
theorem displacement_eq_ok_iff (hp : p.Drafted) (hi : i ∈ p.lines)
    (htarget : p.branchTarget? i = some target) {byte : Byte} :
    displacement i.next (UInt16.ofNat target) = .ok byte ↔
      target ≠ 0x10000 ∧ byte.signed = i.distance target := by
  obtain ⟨name, -, hshort, haddress⟩ := branchTarget?_eq_some htarget
  have hle := hp.labelAddress?_le haddress
  have hnext : i.next.toNat = i.address.toNat + i.size := by
    apply hp.next_toNat hi
    intro hstop
    rw [hstop] at hshort
    cases hshort
  -- Nothing stands below the origin, so no branch can reach the address zero.
  have horigin : 0xFE00 ≤ i.address.toNat := by
    obtain ⟨k, hk⟩ := List.getElem?_of_mem hi
    have hposition := position_le (Nat.zero_le k) (Nat.le_of_lt (length_of_getElem? hk))
    rw [position_zero] at hposition
    rw [hp.laid.address k i hk]
    exact hposition
  have hlow := byte.signed_bounds.1
  rw [Teach6809.displacement_eq_ok_iff, hnext, UInt16.toNat_ofNat', PlacedInstruction.distance]
  by_cases htop : target = 0x10000
  · -- Cut to sixteen bits the target is zero, far below the program.
    constructor
    · intro h
      omega
    · intro h
      exact absurd htop h.1
  · have hmod : target % 2 ^ 16 = target := Nat.mod_eq_of_lt (by omega)
    rw [hmod]
    constructor
    · intro h
      exact ⟨htop, by omega⟩
    · intro h
      omega

/-- A short branch that could be encoded is within reach of its target, and its one byte is the true
distance. -/
theorem bytes_eq_ok (hp : p.Drafted) (hi : i ∈ p.lines) (htarget : p.branchTarget? i = some target)
    {bytes : List Byte} (h : i.operand.bytes i.mnemonic i.next p.labelTarget? = .ok bytes) :
    target ≠ 0x10000 ∧ i.Reaches target ∧
      ∃ byte, bytes = [byte] ∧ byte.signed = i.distance target := by
  rw [operandBytes_of_branch htarget] at h
  obtain ⟨byte, hbyte, rfl⟩ := Except.map_eq_ok.mp h
  obtain ⟨hbelow, hdistance⟩ := (hp.displacement_eq_ok_iff hi htarget).mp hbyte
  refine ⟨hbelow, ?_, byte, rfl, hdistance⟩
  unfold PlacedInstruction.Reaches
  rw [← hdistance]
  exact byte.signed_bounds

/-- Nothing but a short branch can fail to have bytes. -/
theorem branchTarget?_of_error (hp : p.Drafted) (hi : i ∈ p.lines) {cause : Cause}
    (h : i.operand.bytes i.mnemonic i.next p.labelTarget? = .error cause) :
    ∃ target, p.branchTarget? i = some target := by
  have hdeclares := (hp.sound i hi).declares
  cases hoperand : i.operand with
  | label name =>
    obtain ⟨target, htarget⟩ := labelAddress?_of_declares (hdeclares name hoperand)
    refine ⟨target, ?_⟩
    rw [hoperand] at h
    simp only [Operand.bytes, labelTarget?, htarget, Option.map_some] at h
    by_cases hshort : i.mnemonic.isShortBranch = true
    · simp only [branchTarget?, hoperand]
      rw [if_pos hshort, htarget]
    · -- A jump to a label takes the address as it is.
      rw [if_neg hshort] at h
      cases h
  | _ =>
    rw [hoperand] at h
    cases h

/-- A short branch that has no bytes is out of reach of its target, or aims at `$10000`. -/
theorem bytes_eq_error (hp : p.Drafted) (hi : i ∈ p.lines) {cause : Cause}
    (h : i.operand.bytes i.mnemonic i.next p.labelTarget? = .error cause) :
    cause.kind = .branchOutOfRange ∧
      ∃ target, p.branchTarget? i = some target ∧ (target = 0x10000 ∨ ¬ i.Reaches target) := by
  obtain ⟨target, htarget⟩ := hp.branchTarget?_of_error hi h
  rw [operandBytes_of_branch htarget] at h
  cases hdisplacement : displacement i.next (UInt16.ofNat target) with
  | ok byte =>
    rw [hdisplacement] at h
    cases h
  | error other =>
    rw [hdisplacement] at h
    cases h
    refine ⟨kind_of_displacement hdisplacement, target, htarget, ?_⟩
    -- Otherwise the byte that stands for the distance would have been found.
    by_cases htop : target = 0x10000
    · exact .inl htop
    · refine .inr fun hreach => ?_
      have hbyte := Byte.signed_ofInt hreach.1 hreach.2
      have hok := (hp.displacement_eq_ok_iff hi htarget).mpr ⟨htop, hbyte⟩
      rw [hdisplacement] at hok
      cases hok

end Drafted
end Program

/-! ## The last pass -/

namespace Assembly

theorem assemble_of_draft {source : String} {p : Program} (h : draft source = .ok p) :
    assemble source = (resolve p p.lines).map fun lines => { p with lines } := by
  rw [assemble_eq, h]
  rfl

end Assembly

namespace Program

variable {p : Program} {lines : List PlacedInstruction} {i : PlacedInstruction} {target : Nat}

/-- A short branch has only its displacement after the opcode. -/
theorem bytes_of_branchTarget? (h : p.branchTarget? i = some target) :
    i.bytes = i.opcode.bytes ++ i.operandBytes := by
  obtain ⟨name, hoperand, -, -⟩ := branchTarget?_eq_some h
  unfold PlacedInstruction.bytes CheckedInstruction.head
  rw [hoperand]

namespace Drafted

theorem far_of_resolve (hp : p.Drafted) {problem : Diagnostic}
    (h : Assembly.resolve p p.lines = .error problem) :
    problem.cause.kind = .branchOutOfRange ∧ ∃ i ∈ p.lines, ∃ target,
      p.branchTarget? i = some target ∧ (target = 0x10000 ∨ ¬ i.Reaches target) := by
  obtain ⟨before, i, after, cause, hsplit, -, hcause, rfl⟩ := Assembly.resolve_eq_error h
  have hi : i ∈ p.lines := by simp [hsplit]
  obtain ⟨hkind, hfar⟩ := hp.bytes_eq_error hi hcause
  exact ⟨hkind, i, hi, hfar⟩

theorem near_of_resolve (hp : p.Drafted) (h : Assembly.resolve p p.lines = .ok lines)
    (hi : i ∈ p.lines) (htarget : p.branchTarget? i = some target) :
    target ≠ 0x10000 ∧ i.Reaches target := by
  obtain ⟨bytes, hbytes⟩ := Assembly.bytes_of_resolve h hi
  obtain ⟨hbelow, hreach, -⟩ := hp.bytes_eq_ok hi htarget hbytes
  exact ⟨hbelow, hreach⟩

end Drafted

/-- In an assembled program the displacement of a short branch is the true distance. -/
theorem WellFormed.bytes_of_branch (hp : p.WellFormed) (hi : i ∈ p.lines)
    (htarget : p.branchTarget? i = some target) :
    ∃ byte, i.bytes = i.opcode.bytes ++ [byte] ∧ byte.signed = i.distance target := by
  obtain ⟨-, -, byte, hbyte, hdistance⟩ := hp.bytes_eq_ok hi htarget (hp.resolved i hi)
  refine ⟨byte, ?_, hdistance⟩
  rw [bytes_of_branchTarget? htarget, hbyte]

end Program

/-- Once every instruction has its place, assembling fails exactly if a short branch aims at
`$10000` or is out of reach of its target, and says so. Otherwise every short branch is its opcode
and the true distance to its target. -/
theorem branch_range_of_draft {source : String} {p : Program}
    (h : Assembly.draft source = .ok p) :
    ((∃ problem, assemble source = .error problem) ↔
      ∃ i ∈ p.lines, ∃ target,
        p.branchTarget? i = some target ∧ (target = 0x10000 ∨ ¬ i.Reaches target)) ∧
    (∀ problem, assemble source = .error problem → problem.cause.kind = .branchOutOfRange) ∧
    ∀ q, assemble source = .ok q → q.bare = p.bare ∧
      ∀ i ∈ q.lines, ∀ target, q.branchTarget? i = some target →
        ∃ byte, i.bytes = i.opcode.bytes ++ [byte] ∧ byte.signed = i.distance target := by
  have hp := Assembly.drafted_of_draft h
  rw [Assembly.assemble_of_draft h]
  -- Only the last pass is left: it fails on a branch that is too far, or it resolves all of them.
  cases hresolve : Assembly.resolve p p.lines with
  | error problem =>
    obtain ⟨hkind, hfar⟩ := hp.far_of_resolve hresolve
    refine ⟨⟨fun _ => hfar, fun _ => ⟨problem, rfl⟩⟩, ?_, fun q hq => nomatch hq⟩
    intro other hother
    cases hother
    exact hkind
  | ok lines =>
    refine ⟨⟨fun ⟨_, hproblem⟩ => (nomatch hproblem), ?_⟩, fun _ hproblem => (nomatch hproblem), ?_⟩
    · rintro ⟨i, hi, target, htarget, hfar⟩
      obtain ⟨hbelow, hreach⟩ := hp.near_of_resolve hresolve hi htarget
      rcases hfar with htop | hfar
      · exact absurd htop hbelow
      · exact absurd hreach hfar
    · intro q hq
      cases hq
      have hq := Assembly.wellFormed_of_resolve hp hresolve
      exact ⟨Assembly.bare_of_resolve hresolve, fun i hi target => hq.bytes_of_branch hi⟩

/-- A branch back and a call to a label below `END`. -/
theorem branch_range_of_draft_call :
    ∃ q, assemble "LOOP: NOP\n BSR PAST\n BNE LOOP\n END\nPAST:" = .ok q ∧
      q.lines.map (fun i => i.bytes) = [[0x12], [0x8D, 0x03], [0x26, 0xFB], [0x3F]] ∧
      ∀ i ∈ q.lines, ∀ target, q.branchTarget? i = some target →
        ∃ byte, i.bytes = i.opcode.bytes ++ [byte] ∧ byte.signed = i.distance target := by
  obtain ⟨p, hp, -⟩ := Except.exists_of_any
    (x := Assembly.draft "LOOP: NOP\n BSR PAST\n BNE LOOP\n END\nPAST:")
    (q := fun _ => true) (by decide +kernel)
  obtain ⟨q, hq, hbytes⟩ := Except.exists_of_any
    (x := assemble "LOOP: NOP\n BSR PAST\n BNE LOOP\n END\nPAST:")
    (q := fun q => q.lines.map (fun i => i.bytes) == [[0x12], [0x8D, 0x03], [0x26, 0xFB], [0x3F]])
    (by decide +kernel)
  obtain ⟨-, -, hencoded⟩ := branch_range_of_draft hp
  exact ⟨q, hq, by simpa using hbytes, (hencoded q hq).2⟩

set_option maxRecDepth 100000 in
/-- In a program that fills the memory, a branch over `END` has a distance of one byte, and it is
refused all the same. -/
theorem branch_range_of_draft_top :
    let source := String.ofList
      ((List.replicate 127 "LDY #0\n".toList).flatten ++ "NOP\nBRA PAST\nEND\nPAST:".toList)
    ∃ p, Assembly.draft source = .ok p ∧
      (∀ i ∈ p.lines, ∀ target, p.branchTarget? i = some target → i.Reaches target) ∧
      ∃ problem, assemble source = .error problem ∧ problem.cause.kind = .branchOutOfRange := by
  intro source
  obtain ⟨p, hp, htest⟩ := Except.exists_of_any (x := Assembly.draft source)
    (q := fun p =>
      (p.lines.all fun i => (p.branchTarget? i).all fun target => i.Reaches target) &&
        match Assembly.resolve p p.lines with
        | .ok _ => false
        | .error problem => problem.cause.kind == .branchOutOfRange)
    (by
      unfold Assembly.draft SourceLine.ofSource
      rw [String.toList_ofList]
      decide +kernel)
  rw [Bool.and_eq_true, List.all_eq_true] at htest
  obtain ⟨hreaches, hrefused⟩ := htest
  refine ⟨p, hp, ?_, ?_⟩
  · intro i hi target htarget
    have hreach := hreaches i hi
    rw [htarget] at hreach
    exact of_decide_eq_true hreach
  · rw [Assembly.assemble_of_draft hp]
    cases hresolve : Assembly.resolve p p.lines with
    | ok lines =>
      rw [hresolve] at hrefused
      cases hrefused
    | error problem =>
      rw [hresolve] at hrefused
      exact ⟨problem, rfl, by simpa using hrefused⟩

end Teach6809
