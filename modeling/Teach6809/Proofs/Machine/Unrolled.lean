import Teach6809.Proofs.Machine.Action

/-!
# Runs taken apart

A run is a number of steps (`Machine.runLength`). Taking every run apart into its steps gives a list
of single actions (`Machine.singles`) that leads to the same machine; so whatever happens within a
run happens at one of them.
-/

namespace Teach6809
namespace Machine

/-! ## How many steps -/

/-- How many steps a run takes that has taken `count` steps and may take `left + 1` more. -/
def continueLength (cancel : Nat → Machine → Bool) : (left count : Nat) → Machine → Nat
  | left, count, m =>
    match m.step with
    | (_, .error _) => 1
    | (_, .ok (some _)) => 1
    | (after, .ok none) =>
      if cancel (count + 1) after then 1
      else
        match left with
        | 0 => 1
        | left + 1 => continueLength cancel left (count + 1) after + 1

/-- How many steps a run takes. -/
def runLength (m : Machine) (limit : Nat) (cancel : Nat → Machine → Bool) : Nat :=
  continueLength cancel (limit - 1) 0 m

/-- Whether an action is a run. -/
def Action.isRun : Action → Bool
  | .runUntil _ _ => true
  | _ => false

/-- An action as single ones: a run as its steps. -/
def Action.singles (m : Machine) : Action → List Action
  | .runUntil limit cancel => List.replicate (m.runLength limit cancel) .step
  | a => [a]

/-- Actions as single ones. -/
def singles (m : Machine) : List Action → List Action
  | [] => []
  | a :: rest => a.singles m ++ (m.perform a).singles rest

/-- The machine after a number of steps. -/
def steppedTimes (m : Machine) (n : Nat) : Machine := m.performAll (List.replicate n .step)

variable {m : Machine} {cancel : Nat → Machine → Bool} {left count limit : Nat}
  {writes : List (Word × Byte)} {started : List PlacedInstruction}

/-- Actions can be done in two goes. -/
theorem performAll_append (m : Machine) (before after : List Action) :
    m.performAll (before ++ after) = (m.performAll before).performAll after :=
  List.foldl_append

/-- One more step can be taken at the end. -/
theorem steppedTimes_succ (m : Machine) (n : Nat) :
    m.steppedTimes (n + 1) = (m.steppedTimes n).step.1 := by
  unfold steppedTimes
  rw [List.replicate_succ', performAll_append]
  rfl

/-! ## The last step of a run -/

/-- A run ends with the last of its steps. -/
theorem continueRun_endsWith_last :
    ∃ n, continueLength cancel left count m = n + 1 ∧
      (continueRun cancel left count m writes started).EndsWith (m.steppedTimes n) := by
  -- The induction follows the run: the last round is a single step, every other puts one in front.
  fun_induction continueRun cancel left count m writes started with
  | case1 left count m writes started _ _ after problem hstep =>
    refine ⟨0, by rw [continueLength, hstep], ?_⟩
    show Run.EndsWith _ m
    exact ⟨by rw [hstep], .inl (by rw [hstep])⟩
  | case2 left count m writes started _ _ after reason hstep =>
    refine ⟨0, by rw [continueLength, hstep], ?_⟩
    show Run.EndsWith _ m
    exact ⟨by rw [hstep], .inl (by rw [hstep])⟩
  | case3 left count m writes started _ _ after hstep _ hcancel =>
    refine ⟨0, by rw [continueLength, hstep]; exact if_pos hcancel, ?_⟩
    show Run.EndsWith _ m
    exact ⟨by rw [hstep], .inl (by rw [hstep])⟩
  | case4 count m writes started _ _ after hstep _ hcancel =>
    refine ⟨0, by rw [continueLength, hstep]; exact if_neg hcancel, ?_⟩
    show Run.EndsWith _ m
    exact ⟨by rw [hstep], .inr ⟨by rw [hstep], count + 1, rfl⟩⟩
  | case5 count m writes started _ after hstep _ hcancel left ih =>
    obtain ⟨n, hlength, hends⟩ := ih
    refine ⟨n + 1, ?_, ?_⟩
    · rw [continueLength, hstep, ← hlength]
      exact if_neg hcancel
    · have hafter : m.steppedTimes (n + 1) = after.steppedTimes n := by
        show m.step.1.steppedTimes n = after.steppedTimes n
        rw [hstep]
      rw [hafter]
      exact hends

/-- A run is as many steps as it is long, the last of which ends it. -/
theorem runUntil_endsWith_last (m : Machine) (limit : Nat) (cancel : Nat → Machine → Bool) :
    ∃ n, m.runLength limit cancel = n + 1 ∧
      (m.runUntil limit cancel).EndsWith (m.steppedTimes n) :=
  continueRun_endsWith_last

/-! ## Single actions -/

/-- An action leads where its single ones do. -/
theorem performAll_singles_action (m : Machine) (a : Action) :
    m.performAll (a.singles m) = m.perform a := by
  cases a with
  | runUntil limit cancel =>
    obtain ⟨n, hlength, hends⟩ := m.runUntil_endsWith_last limit cancel
    show m.steppedTimes (m.runLength limit cancel) = (m.runUntil limit cancel).machine
    rw [hlength, steppedTimes_succ, hends.machine]
  | _ => rfl

/-- Taking runs apart changes nothing. -/
theorem performAll_singles (m : Machine) (actions : List Action) :
    m.performAll (m.singles actions) = m.performAll actions := by
  induction actions generalizing m with
  | nil => rfl
  | cons a rest ih =>
    rw [singles, performAll_append, performAll_singles_action, ih]
    rfl

/-- Single actions are steps or actions that are no runs. -/
theorem mem_singles {actions : List Action} {a : Action} (h : a ∈ m.singles actions) :
    a = .step ∨ a ∈ actions ∧ a.isRun = false := by
  induction actions generalizing m with
  | nil => cases h
  | cons first rest ih =>
    rcases List.mem_append.mp h with h | h
    · cases first with
      | runUntil limit cancel => exact .inl (List.eq_of_mem_replicate h)
      | _ =>
        cases List.mem_singleton.mp h
        exact .inr ⟨List.mem_cons_self, rfl⟩
    · rcases ih h with hstep | ⟨hmem, hrun⟩
      · exact .inl hstep
      · exact .inr ⟨List.mem_cons_of_mem first hmem, hrun⟩

end Machine
end Teach6809
