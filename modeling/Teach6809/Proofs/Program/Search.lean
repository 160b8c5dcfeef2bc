import Teach6809.Proofs.Assembly.WellFormed

/-!
# Searching a program by halves

Instructions come in the order of their lines and of their addresses, so a search can halve the
program at every look instead of going through it (`Program.bisect`). Main statements: for an
assembled program the search by line and the search by address find what going through finds.
-/

namespace Teach6809
namespace Program

variable {p : Program} {i : PlacedInstruction}

/-! ## Halving -/

/-- The number between `low` and `high` from which on a test is no longer true. -/
def bisect (p : Program) (before : PlacedInstruction → Bool) (low high : Nat) : Nat :=
  if low < high then
    let middle := low + (high - low) / 2
    if p.lines[middle]?.any before then p.bisect before (middle + 1) high
    else p.bisect before low middle
  else low
termination_by high - low

/-- The search by line. -/
def bisectLine (p : Program) (line : Nat) : Nat :=
  p.bisect (fun i => i.line < line) 0 p.lines.length

/-- The search by address. -/
def bisectAddress? (p : Program) (address : Word) : Option Nat :=
  let k := p.bisect (fun i => i.address < address) 0 p.lines.length
  if p.lines[k]?.any (fun i => i.address == address) then some k else none

/-- Halving finds the number before which a test is true and from which on it is not. -/
theorem bisect_eq {before : PlacedInstruction → Bool} {k low high : Nat}
    (hbefore : ∀ j i, p.lines[j]? = some i → (before i = true ↔ j < k)) (hlow : low ≤ k)
    (hk : k ≤ high) (hhigh : high ≤ p.lines.length) : p.bisect before low high = k := by
  fun_induction bisect p before low high with
  | case1 low high hlt middle htrue ih =>
    have hmiddle : p.lines[middle]? = some p.lines[middle] := List.getElem?_eq_getElem (by omega)
    rw [hmiddle] at htrue
    have hless := (hbefore middle _ hmiddle).mp htrue
    exact ih hless hk hhigh
  | case2 low high hlt middle hfalse ih =>
    have hmiddle : p.lines[middle]? = some p.lines[middle] := List.getElem?_eq_getElem (by omega)
    rw [hmiddle] at hfalse
    have hnot : ¬ middle < k := fun hless => hfalse ((hbefore middle _ hmiddle).mpr hless)
    exact ih hlow (by omega) (by omega)
  | case3 low high hge => omega

/-! ## By line -/

/-- Going through the program stops at the first instruction that is not above the line. -/
theorem indexFromLine_eq_findIdx (p : Program) (line : Nat) :
    p.indexFromLine line = p.lines.findIdx fun i => line ≤ i.line := by
  have hnot : (fun i : PlacedInstruction => !decide (i.line < line)) =
      fun i => decide (line ≤ i.line) := by
    funext i
    by_cases hlt : i.line < line
    · have hle : ¬ line ≤ i.line := by omega
      simp [hlt, hle]
    · have hle : line ≤ i.line := by omega
      simp [hlt, hle]
  unfold indexFromLine
  rw [List.takeWhile_eq_take_findIdx_not, List.length_take, hnot]
  exact Nat.min_eq_left List.findIdx_le_length

namespace WellFormed

/-- The instructions above a line are those before the number that the line leads to. -/
theorem line_lt_iff (hp : p.WellFormed) {j line : Nat} (hj : p.lines[j]? = some i) :
    i.line < line ↔ j < p.indexFromLine line := by
  obtain ⟨hlt, rfl⟩ := List.getElem?_eq_some_iff.mp hj
  rw [p.indexFromLine_eq_findIdx]
  constructor
  · intro habove
    apply Nat.lt_of_not_le
    intro hle
    -- The instruction that was found is at or before `j`, so it is above the line as well.
    have hbound : (p.lines.findIdx fun i => line ≤ i.line) < p.lines.length := by omega
    have hfound : line ≤ p.lines[p.lines.findIdx fun i => line ≤ i.line].line := by
      simpa using List.findIdx_getElem (p := fun i : PlacedInstruction => decide (line ≤ i.line))
    rcases Nat.lt_or_eq_of_le hle with hless | heq
    · have hordered := List.pairwise_iff_getElem.mp hp.ordered _ _ (by omega) hlt hless
      omega
    · simp only [heq] at hfound
      omega
  · intro hless
    have hnot := List.not_of_lt_findIdx hless
    simpa using hnot

theorem bisectLine_eq (hp : p.WellFormed) (line : Nat) :
    p.bisectLine line = p.indexFromLine line := by
  refine bisect_eq (fun j i hj => ?_) (Nat.zero_le _) (p.indexFromLine_le line) (Nat.le_refl _)
  rw [decide_eq_true_iff]
  exact hp.line_lt_iff hj

/-! ## By address -/

/-- Addresses grow with the number of the instruction. -/
theorem address_lt_iff (hp : p.WellFormed) {j k : Nat} {i' : PlacedInstruction}
    (hj : p.lines[j]? = some i) (hk : p.lines[k]? = some i') : i.address < i'.address ↔ j < k := by
  have hjlt := length_of_getElem? hj
  have hklt := length_of_getElem? hk
  rw [UInt16.lt_iff_toNat_lt, hp.laid.address j i hj, hp.laid.address k i' hk]
  constructor
  · intro hposition
    apply Nat.lt_of_not_le
    intro hle
    have := position_le hle (Nat.le_of_lt hjlt)
    omega
  · intro hless
    exact position_lt hless (Nat.le_of_lt hklt)

theorem bisectAddress?_eq (hp : p.WellFormed) (address : Word) :
    p.bisectAddress? address = p.indexOf? address := by
  have hfound : ∀ k, p.bisectAddress? address = some k ↔ p.indexOf? address = some k := by
    intro k
    rw [hp.laid.indexOf?_eq_some_iff]
    unfold bisectAddress?
    constructor
    · intro h
      dsimp only at h
      split at h
      · rename_i hany
        cases h
        obtain ⟨i, hi, haddress⟩ := (Option.any_eq_true _ _).mp hany
        exact ⟨i, hi, by simpa using haddress⟩
      · cases h
    · rintro ⟨i, hi, rfl⟩
      have hk : p.bisect (fun j => j.address < i.address) 0 p.lines.length = k := by
        refine bisect_eq (fun j i' hj => ?_) (Nat.zero_le _)
          (Nat.le_of_lt (length_of_getElem? hi)) (Nat.le_refl _)
        rw [decide_eq_true_iff]
        exact hp.address_lt_iff hj hi
      simp only [hk, hi]
      exact if_pos (beq_self_eq_true _)
  exact Option.ext hfound

end WellFormed
end Program
end Teach6809
