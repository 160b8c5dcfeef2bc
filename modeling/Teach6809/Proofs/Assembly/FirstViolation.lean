import Teach6809.Proofs.Assembly.BranchRange
import Teach6809.Proofs.Assembly.Violation

/-!
# Which violation is reported

Of all that is wrong with a source text, one violation is reported. The two rules that need
addresses are treated here as the others were in `Violation`, and then the checks are put in a row.
Main statement: `first_violation_of_assemble`. Assembling fails exactly if some line violates some
rule, and what is reported is a violation of the first rule that is violated, on the first line that
violates it.
-/

namespace Teach6809
namespace Assembly

variable {source : String} {problem : Diagnostic}

/-! ## Room -/

theorem sketch_sorted (hsorted : (checkable source).Pairwise fun i j => i.line < j.line) :
    (sketch source).lines.Pairwise fun i j => i.line < j.line := by
  rw [← map_layOut origin.toNat (checkable source), List.pairwise_map] at hsorted
  exact hsorted

/-- There is no room for all instructions if and only if they take more than 512 bytes. -/
theorem violates_room_iff :
    (∃ line kind, Violates source .room line kind) ↔
      512 < PlacedInstruction.totalSize (sketch source).lines := by
  have hend : (sketch source).position (sketch source).lines.length =
      origin.toNat + PlacedInstruction.totalSize (sketch source).lines := by
    rw [Program.position, List.take_length]
  have horigin : origin.toNat + 512 = Memory.size := rfl
  constructor
  · intro h
    obtain ⟨line, kind, hviolates⟩ := h
    cases hviolates with
    | @room k i hk hover =>
      have hlt : k + 1 ≤ (sketch source).lines.length := Program.length_of_getElem? hk
      have hle := Program.position_le hlt (Nat.le_refl _)
      omega
  · intro hover
    -- The last instruction is beyond the top of memory, though it may not be the first.
    cases hlast : (sketch source).lines.getLast? with
    | none =>
      rw [List.getLast?_eq_none_iff.mp hlast] at hover
      exact absurd hover (by decide)
    | some last =>
      rw [List.getLast?_eq_getElem?] at hlast
      have hlt := Program.length_of_getElem? hlast
      refine ⟨_, _, .room hlast ?_⟩
      rw [Nat.sub_add_cancel (by omega), hend]
      omega

theorem place_keeps {placed : List PlacedInstruction}
    (h : place origin.toNat (checkable source) = .ok placed) :
    placed = (sketch source).lines ∧ Keeps source .room := by
  have hplaced : placed = (sketch source).lines := layOut_of_place h
  refine ⟨hplaced, fun line kind hviolates => ?_⟩
  have hroom := (place_eq_ok h (by decide)).2.2
  have hover := violates_room_iff.mp ⟨line, kind, hviolates⟩
  have horigin : origin.toNat + 512 = Memory.size := rfl
  rw [hplaced] at hroom
  omega

theorem place_reportsFirst (hsorted : (checkable source).Pairwise fun i j => i.line < j.line)
    (h : place origin.toNat (checkable source) = .error problem) :
    ReportsFirst source .room problem := by
  obtain ⟨before, i, after, hsplit, hroom, hover, rfl⟩ := place_eq_error (by decide) h
  have hlines : (sketch source).lines = layOut origin.toNat before ++
      layOut (origin.toNat + PlacedInstruction.totalSize (layOut origin.toNat before))
        (i :: after) := by
    rw [← layOut_append, ← hsplit]
    rfl
  let k := (layOut origin.toNat before).length
  have hposition : (sketch source).position k =
      origin.toNat + PlacedInstruction.totalSize (layOut origin.toNat before) := by
    rw [Program.position, hlines, List.take_left]
  obtain ⟨placed, hk, hplaced⟩ : ∃ placed, (sketch source).lines[k]? = some placed ∧
      placed.toLocatedInstruction = i := by
    rw [hlines, List.getElem?_append_right (Nat.le_refl _), Nat.sub_self]
    exact ⟨_, rfl, rfl⟩
  have hline : placed.line = i.line := by rw [hplaced]
  have hsize : placed.size = i.size := by rw [← hplaced]
  refine ⟨?_, ?_⟩
  · show Violates source .room (some i.line) .programTooLarge
    rw [← hline]
    refine .room hk ?_
    rw [Program.position_succ hk, hposition, hsize]
    exact hover
  · intro place hplace n kind hviolates
    cases hplace
    show i.line ≤ n
    cases hviolates with
    | @room k' j hk' hover' =>
      -- Everything before the reported instruction lies below the top of memory.
      have hle : k ≤ k' := by
        by_contra hlt
        have hmono := Program.position_le (p := sketch source) (show k' + 1 ≤ k by omega)
          (Nat.le_of_lt (Program.length_of_getElem? hk))
        omega
      rcases Nat.lt_or_eq_of_le hle with hlt | heq
      · obtain ⟨hbound, rfl⟩ := List.getElem?_eq_some_iff.mp hk
        obtain ⟨hbound', rfl⟩ := List.getElem?_eq_some_iff.mp hk'
        have hordered :=
          List.pairwise_iff_getElem.mp (sketch_sorted hsorted) k k' hbound hbound' hlt
        omega
      · rw [← heq, hk] at hk'
        cases hk'
        exact Nat.le_of_eq hline.symm

/-! ## Reach -/

/-- A short branch that is out of reach has no operand bytes. -/
theorem bytes_of_violates_reach {n : Nat} {kind : Kind}
    (h : Violates source .reach (some n) kind) :
    ∃ i ∈ (sketch source).lines, i.line = n ∧ ∃ cause,
      i.operand.bytes i.mnemonic i.next (sketch source).labelTarget? = .error cause := by
  cases h with
  | @reach i name target cause hi hshort hoperand htarget hcause =>
    refine ⟨i, hi, rfl, cause, ?_⟩
    rw [hoperand]
    simp only [Operand.bytes, htarget]
    rw [if_pos hshort, hcause]
    rfl

theorem resolve_keeps {lines : List PlacedInstruction}
    (h : resolve (sketch source) (sketch source).lines = .ok lines) : Keeps source .reach := by
  intro line kind hviolates
  have hn : ∃ n, line = some n := by
    cases hviolates
    exact ⟨_, rfl⟩
  obtain ⟨n, rfl⟩ := hn
  obtain ⟨i, hi, -, cause, hcause⟩ := bytes_of_violates_reach hviolates
  obtain ⟨bytes, hbytes⟩ := bytes_of_resolve h hi
  rw [hcause] at hbytes
  cases hbytes

theorem resolve_reportsFirst (hp : (sketch source).Drafted)
    (h : resolve (sketch source) (sketch source).lines = .error problem) :
    ReportsFirst source .reach problem := by
  obtain ⟨before, i, after, cause, hsplit, hbefore, hcause, rfl⟩ := resolve_eq_error h
  have hi : i ∈ (sketch source).lines := by simp [hsplit]
  refine ⟨?_, ?_⟩
  · -- Only a short branch can fail to have bytes, and only because of its displacement.
    obtain ⟨hkind, target, htarget, -⟩ := hp.bytes_eq_error hi hcause
    obtain ⟨name, hoperand, hshort, haddress⟩ := Program.branchTarget?_eq_some htarget
    have hlabel : (sketch source).labelTarget? name = some (UInt16.ofNat target) := by
      rw [Program.labelTarget?, haddress]
      rfl
    rw [Program.operandBytes_of_branch htarget] at hcause
    show Violates source .reach (some i.line) cause.kind
    rw [hkind]
    cases hdisplacement : displacement i.next (UInt16.ofNat target) with
    | ok byte =>
      rw [hdisplacement] at hcause
      cases hcause
    | error other => exact .reach hi hshort hoperand hlabel hdisplacement
  · intro place hplace n kind hviolates
    cases hplace
    obtain ⟨j, hj, rfl, other, hother⟩ := bytes_of_violates_reach hviolates
    refine key_le_of_not_mem hp.ordered hsplit hj fun hmem => ?_
    obtain ⟨bytes, hbytes⟩ := hbefore j hmem
    rw [hother] at hbytes
    cases hbytes

/-! ## All rules -/

/-- A source text violates none of this many rules, in the order of the checks. -/
def KeepsFirst (source : String) (n : Nat) : Prop :=
  ∀ rule : Rule, rule.rank < n → Keeps source rule

/-- What an answer and a diagnostic must say of a source text: that it violates no rule, or which
violation is the first. -/
def Settles {α : Type} (source : String) : Except Diagnostic α → Prop
  | .ok _ => ∀ rule, Keeps source rule
  | .error problem => ∃ rule, ReportsFirst source rule problem ∧ KeepsFirst source rule.rank

/-- The check of a rule may be put before what is settled if the rule is kept. -/
theorem settles_bind {α β : Type} {x : Except Diagnostic α} {f : α → Except Diagnostic β}
    (rule : Rule) (hbefore : KeepsFirst source rule.rank)
    (hkeeps : ∀ a, x = .ok a → Keeps source rule)
    (hreports : ∀ problem, x = .error problem → ReportsFirst source rule problem)
    (hrest : ∀ a, x = .ok a → KeepsFirst source (rule.rank + 1) → Settles source (f a)) :
    Settles source (x >>= f) := by
  cases x with
  | error problem => exact ⟨rule, hreports problem rfl, hbefore⟩
  | ok a =>
    apply hrest a rfl
    intro other hlt
    rcases Nat.lt_succ_iff_lt_or_eq.mp hlt with hother | hsame
    · exact hbefore other hother
    · have hrule := hkeeps a rfl
      rwa [← Rule.rank_inj hsame] at hrule

theorem settles_assemble (source : String) : Settles source (assemble source) := by
  unfold assemble
  refine settles_bind .label (fun _ h => absurd h (Nat.not_lt_zero _))
    (fun _ h => (ofSource_keeps h).2) (fun _ => ofSource_reportsFirst) fun lines hlines hlabel => ?_
  obtain ⟨rfl, -⟩ := ofSource_keeps hlines
  have hsorted := readable_sorted hlines
  refine settles_bind .unique hlabel (fun _ h => (ofLines_keeps hsorted h).2)
    (fun _ => ofLines_reportsFirst hsorted) fun table htable hunique => ?_
  obtain ⟨rfl, -⟩ := ofLines_keeps hsorted htable
  refine settles_bind .instruction hunique (fun _ h => (checkLines_keeps h).2)
    (fun _ => checkLines_reportsFirst hsorted) fun instructions hcheck hinstruction => ?_
  obtain ⟨rfl, -⟩ := checkLines_keeps hcheck
  refine settles_bind .ending hinstruction (fun _ => requireEnd_keeps hsorted hcheck)
    (fun _ => requireEnd_reportsFirst hsorted hcheck) fun _ hend hending => ?_
  refine settles_bind .room hending (fun _ h => (place_keeps h).2)
    (fun _ => place_reportsFirst (lines_of_checkLines hlines hcheck).1)
    fun placed hplace hroom => ?_
  obtain ⟨rfl, -⟩ := place_keeps hplace
  -- Up to here this is the draft of the text, so the rest is known to be laid out.
  have hdraft : draft source = .ok (sketch source) :=
    Except.bind_eq_ok.mpr ⟨_, hlines, Except.bind_eq_ok.mpr ⟨_, htable, Except.bind_eq_ok.mpr
      ⟨_, hcheck, Except.bind_eq_ok.mpr ⟨_, hend, Except.bind_eq_ok.mpr ⟨_, hplace, rfl⟩⟩⟩⟩⟩
  refine settles_bind .reach hroom (fun _ => resolve_keeps)
    (fun _ => resolve_reportsFirst (drafted_of_draft hdraft)) fun _ _ hall rule => ?_
  exact hall rule (by cases rule <;> decide)

end Assembly

/-- Assembling fails exactly if some line violates some rule. What is reported is a violation of the
first rule that is violated, on the first line that violates it. The rule for room is violated
exactly if the instructions take more than 512 bytes. -/
theorem first_violation_of_assemble (source : String) :
    ((∃ problem, assemble source = .error problem) ↔
      ∃ rule line kind, Assembly.Violates source rule line kind) ∧
    (∀ problem, assemble source = .error problem →
      ∃ rule, Assembly.ReportsFirst source rule problem ∧
        ∀ other : Assembly.Rule, other.rank < rule.rank → Assembly.Keeps source other) ∧
    ((∃ line kind, Assembly.Violates source .room line kind) ↔
      512 < PlacedInstruction.totalSize (Assembly.sketch source).lines) := by
  have hsettles := Assembly.settles_assemble source
  refine ⟨?_, ?_, Assembly.violates_room_iff⟩
  · constructor
    · intro h
      obtain ⟨problem, hproblem⟩ := h
      rw [hproblem] at hsettles
      obtain ⟨rule, hreports, -⟩ := hsettles
      exact ⟨rule, _, _, hreports.violates⟩
    · intro h
      obtain ⟨rule, line, kind, hviolates⟩ := h
      cases hresult : assemble source with
      | error problem => exact ⟨problem, rfl⟩
      | ok p =>
        rw [hresult] at hsettles
        exact absurd hviolates (hsettles rule line kind)
  · intro problem hproblem
    rw [hproblem] at hsettles
    exact hsettles

/-- Three things are wrong: an unknown mnemonic on the first line, a label declared again on the
third, and no `END`. The label is reported. -/
theorem first_violation_of_assemble_unique :
    let source := "FOO\nA: NOP\n a:\nBRA A"
    assemble source = .error ⟨.duplicateLabel "A", some ⟨2, 12, 1⟩⟩ ∧
      ∃ rule, Assembly.ReportsFirst source rule ⟨.duplicateLabel "A", some ⟨2, 12, 1⟩⟩ ∧
        ∀ other : Assembly.Rule, other.rank < rule.rank → Assembly.Keeps source other := by
  intro source
  have hassemble : assemble source = .error ⟨.duplicateLabel "A", some ⟨2, 12, 1⟩⟩ := by
    decide +kernel
  exact ⟨hassemble, (first_violation_of_assemble source).2.1 _ hassemble⟩

end Teach6809
