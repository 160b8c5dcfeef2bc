import Mathlib.Data.List.Induction
import Teach6809.Proofs.Assembly.Blame
import Teach6809.Proofs.Simulator.Consistent

/-!
# Why a simulator is halted

That a program has stopped is kept twice: by the status of the simulator and by the machine, which
also keeps the reason. The step limit halts the simulator only. So a halted simulator can say why
unless its last run was cut off by the limit (`Simulator.CutOff`), and then it cannot. Lines typed
by hand are left out here; they can move the machine without the simulator taking notice.
-/

namespace Teach6809

/-- Whether an action executes a line typed by hand. -/
def Simulator.Action.isTyped : Action → Bool
  | .evaluate _ => true
  | _ => false

/-- Whether an action neither starts a halted simulator again nor discards its machine. -/
def Simulator.Action.leavesHalted : Action → Bool
  | .step | .run | .runUntil _ | .setMaxSteps _ | .subscribe | .poke _ _ => true
  | .setRegister r _ => r != .pc
  | .loadFile contents => (contents.bind String.fromUTF8?).isNone
  | .load _ | .assemble | .reset | .evaluate _ => false

/-- The answer that a run used up the step limit. -/
def Reply.Limited (r : Reply (Except Diagnostic Snapshot)) : Prop :=
  ∃ count, r.answer = .error (.unplaced (.stepLimit count))

namespace Simulator

/-- Halted, but the machine was not stopped. -/
structure Unexplained (s : Simulator) : Prop where
  status : s.status = .halted
  halt : s.halt? = none

/-- An action is refused because a run used up the step limit. -/
def LimitReached (s : Simulator) (a : Action) : Prop :=
  ∃ count, (s.perform a).answer = .refused (.unplaced (.stepLimit count))

/-- A run used up the step limit, and nothing done since lets the simulator go on. -/
def CutOff (settings : Settings) (actions : List Action) : Prop :=
  ∃ before a after, actions = before ++ a :: after ∧ (reached settings before).LimitReached a ∧
    ∀ b ∈ after, b.leavesHalted = true

variable {s : Simulator} {m : Machine} {problem : Diagnostic}

/-! ## Simulators that are not halted -/

/-- Only a halted simulator can lack a reason. -/
theorem not_unexplained (hstatus : s.status ≠ .halted) : ¬ s.Unexplained :=
  fun h => hstatus h.status

/-- Without a machine a simulator is not halted. -/
theorem Consistent.status_of_none (hs : s.Consistent) (hm : s.machine = none) :
    s.status ≠ .halted := by
  rw [hs.notAssembled.mpr hm]
  decide

/-! ## Assembling -/

/-- Assembling never leaves a simulator halted, and has nothing to do with the step limit. -/
theorem Consistent.assemble_explained (hs : s.Consistent) :
    ¬ s.assemble.simulator.Unexplained ∧ ¬ s.assemble.Limited := by
  unfold Simulator.assemble
  split
  · exact ⟨not_unexplained (show Status.notAssembled ≠ .halted by decide), fun ⟨_, h⟩ => nomatch h⟩
  · rename_i hm
    split
    · rename_i problem hproblem
      refine ⟨not_unexplained (hs.status_of_none hm), ?_⟩
      rintro ⟨count, hlimit⟩
      cases hlimit
      rcases assemble_blame hproblem with ⟨place, slice, hplace, -⟩ | hend
      · cases hplace
      · cases hend
    · exact ⟨not_unexplained (show Status.ready ≠ .halted by decide), fun ⟨_, h⟩ => nomatch h⟩

/-! ## Steps and runs -/

theorem not_limited_silent (view : Snapshot) : ¬ (s.silent (.ok view)).Limited := by
  rintro ⟨count, hlimit⟩
  cases hlimit

/-- A machine taken over leaves the simulator halted without a reason exactly if it could go on and
the outcome says otherwise. -/
theorem unexplained_settle {outcome : Machine.Outcome} {writes : List (Word × Byte)}
    {started : List PlacedInstruction} :
    (s.settle m outcome writes started).simulator.Unexplained ↔
      outcome ≠ .ok none ∧ m.halt = none := by
  rcases outcome with problem | _ | reason
  · exact ⟨fun h => ⟨fun heq => (nomatch heq), h.halt⟩, fun h => ⟨rfl, h.2⟩⟩
  · exact ⟨fun h => (nomatch h.status), fun h => absurd rfl h.1⟩
  · exact ⟨fun h => ⟨fun heq => (nomatch heq), h.halt⟩, fun h => ⟨rfl, h.2⟩⟩

/-- Taking over a machine answers with the limit exactly if the outcome does. -/
theorem limited_settle {outcome : Machine.Outcome} {writes : List (Word × Byte)}
    {started : List PlacedInstruction} :
    (s.settle m outcome writes started).Limited ↔
      ∃ count, outcome = .error (.unplaced (.stepLimit count)) := by
  cases outcome with
  | error problem =>
    constructor <;> (rintro ⟨count, h⟩; cases h; exact ⟨count, rfl⟩)
  | ok halt => exact ⟨fun ⟨_, h⟩ => (nomatch h), fun ⟨_, h⟩ => nomatch h⟩

/-- The machine always has the reason why a step was its last. -/
theorem halt_of_step (hended : m.step.2 ≠ .ok none) : m.step.1.halt ≠ none := by
  cases houtcome : m.step.2 with
  | error problem =>
    rw [(m.stepped.error houtcome).1]
    exact fun h => nomatch h
  | ok halt =>
    rw [m.stepped.halt houtcome]
    rintro rfl
    exact hended houtcome

/-- No single step fails for the limit. -/
theorem step_ne_stepLimit (m : Machine) (count : Nat) :
    m.step.2 ≠ .error (.unplaced (.stepLimit count)) := by
  intro houtcome
  rcases (m.stepped.error houtcome).2 with hplace | hpc
  · cases hplace
  · cases hpc

/-- A run leaves the machine without a reason for its end exactly if the limit ended it. -/
theorem endsWith_limit {run : Run} {last : Machine} (h : run.EndsWith last) :
    run.outcome ≠ .ok none ∧ run.machine.halt = none ↔
      ∃ count, run.outcome = .error (.unplaced (.stepLimit count)) := by
  rw [h.machine]
  constructor
  · rintro ⟨hended, hhalt⟩
    rcases h.outcome with hsame | ⟨-, hlimit⟩
    · rw [hsame] at hended
      exact absurd hhalt (halt_of_step hended)
    · exact hlimit
  · rintro ⟨count, hlimit⟩
    rcases h.outcome with hsame | ⟨hstep, -⟩
    · exact absurd (hsame.symm.trans hlimit) (step_ne_stepLimit last count)
    · -- The limit ends a run only after a step that could be followed by another.
      refine ⟨?_, last.stepped.halt hstep⟩
      rw [hlimit]
      exact fun heq => nomatch heq

/-- A step leaves a halt without reason only where there was one. -/
theorem Consistent.unexplained_step (hs : s.Consistent) :
    s.step.simulator.Unexplained ↔ s.step.Limited ∨ s.Unexplained := by
  cases hm : s.machine with
  | none =>
    have hassemble := hs.assemble_explained
    have hnot := not_unexplained (hs.status_of_none hm)
    rw [Simulator.step, hm]
    exact ⟨fun h => absurd h hassemble.1, fun h => (h.elim hassemble.2 hnot).elim⟩
  | some m =>
    by_cases hstatus : s.status = .halted
    · rw [step_of_halted hm hstatus]
      exact ⟨.inr, fun h => h.resolve_left (not_limited_silent _)⟩
    · have hnot := not_unexplained hstatus
      rw [step_of_machine hm hstatus, unexplained_settle, limited_settle]
      constructor
      · rintro ⟨hended, hhalt⟩
        exact absurd hhalt (halt_of_step hended)
      · rintro (⟨count, hlimit⟩ | hs)
        · exact absurd hlimit (step_ne_stepLimit m count)
        · exact absurd hs hnot

/-- A run leaves a halt without reason if it used up the limit, or where there was one. -/
theorem unexplained_runAssembled (cancel : Nat → Bool) :
    (s.runAssembled m cancel).simulator.Unexplained ↔
      (s.runAssembled m cancel).Limited ∨ s.Unexplained := by
  unfold runAssembled
  by_cases hstatus : s.status = .halted
  · rw [if_pos hstatus]
    exact ⟨.inr, fun h => h.resolve_left (not_limited_silent _)⟩
  · have hnot := not_unexplained hstatus
    obtain ⟨last, -, hends⟩ := Machine.runUntil_endsWith (P := fun _ => True) (m := m)
      (fun _ _ => trivial) trivial s.maxSteps fun count _ => cancel count
    rw [if_neg hstatus, unexplained_settle, limited_settle, endsWith_limit hends]
    exact ⟨.inl, fun h => h.resolve_right hnot⟩

/-- So does a run that assembles first. -/
theorem Consistent.unexplained_runUntil (hs : s.Consistent) (cancel : Nat → Bool) :
    (s.runUntil cancel).simulator.Unexplained ↔
      (s.runUntil cancel).Limited ∨ s.Unexplained := by
  have hassemble := hs.assemble_explained
  unfold Simulator.runUntil
  split
  · exact unexplained_runAssembled cancel
  · rename_i hm
    have hnot := not_unexplained (hs.status_of_none hm)
    dsimp only
    split
    · -- The simulator has just been assembled, so it is not halted before the run.
      have hrun := unexplained_runAssembled (s := s.assemble.simulator) (m := by assumption) cancel
      exact hrun.trans ⟨fun h => .inl (h.resolve_right hassemble.1),
        fun h => .inl (h.resolve_right hnot)⟩
    · exact ⟨fun h => absurd h hassemble.1, fun h => (h.elim hassemble.2 hnot).elim⟩

/-! ## All actions -/

/-- The answer that tells of the limit is told as a refusal. -/
theorem limited_told (r : Reply (Except Diagnostic Snapshot)) :
    (∃ count, r.told.answer = .refused (.unplaced (.stepLimit count))) ↔ r.Limited := by
  unfold Reply.Limited Reply.told Reply.withAnswer
  cases r.answer with
  | ok view => exact ⟨fun ⟨_, h⟩ => (nomatch h), fun ⟨_, h⟩ => nomatch h⟩
  | error problem => constructor <;> (rintro ⟨count, h⟩; cases h; exact ⟨count, rfl⟩)

theorem unexplained_loadFile (s : Simulator) (contents : Option ByteArray) :
    (s.perform (.loadFile contents)).simulator.Unexplained ↔
      s.Unexplained ∧ (Action.loadFile contents).leavesHalted = true := by
  unfold perform Simulator.loadFile Action.leavesHalted
  cases contents with
  | none => exact ⟨fun h => ⟨h, rfl⟩, And.left⟩
  | some bytes =>
    dsimp only [Option.bind_some]
    cases String.fromUTF8? bytes with
    | none => exact ⟨fun h => ⟨h, rfl⟩, And.left⟩
    | some source => exact ⟨fun h => (nomatch h.status), fun h => (nomatch h.2)⟩

/-- Writing the program counter is the one edit that ends a halt. -/
theorem Consistent.unexplained_setRegister (hs : s.Consistent) (r : Register) (value : Word) :
    (s.setRegister r value).simulator.Unexplained ↔ s.Unexplained ∧ (r != .pc) = true := by
  unfold Simulator.setRegister
  split
  · rename_i hm
    have hnot := not_unexplained (hs.status_of_none hm)
    exact ⟨fun h => absurd h hnot, fun h => absurd h.1 hnot⟩
  · rename_i m hm
    by_cases hpc : r = .pc
    · subst hpc
      refine ⟨fun h => absurd h.status ?_, fun h => (nomatch h.2)⟩
      show (if Register.pc = .pc ∧ s.status = .halted then Status.running else s.status) ≠ .halted
      by_cases hstatus : s.status = .halted
      · rw [if_pos ⟨rfl, hstatus⟩]
        decide
      · rw [if_neg fun h => hstatus h.2]
        exact hstatus
    · -- Neither status nor halt is touched.
      have hstatus : (if r = .pc ∧ s.status = .halted then Status.running else s.status) =
          s.status := if_neg fun h => hpc h.1
      have hhalt : (m.set r value).halt = s.halt? := by
        rw [halt?_of_machine hm]
        exact if_neg hpc
      exact ⟨fun h => ⟨⟨hstatus.symm.trans h.status, hhalt.symm.trans h.halt⟩, bne_iff_ne.mpr hpc⟩,
        fun h => ⟨hstatus.trans h.1.status, hhalt.trans h.1.halt⟩⟩

theorem unexplained_poke (address : Word) (value : Byte) :
    (s.poke address value).Unexplained ↔ s.Unexplained := by
  have hhalt : (s.poke address value).halt? = s.halt? := by
    unfold halt? poke
    cases s.machine <;> rfl
  exact ⟨fun h => ⟨h.status, hhalt.symm.trans h.halt⟩, fun h => ⟨h.status, hhalt.trans h.halt⟩⟩

/-- A simulator is halted without a reason after an action exactly if a run used up the step limit
just now, or it was so before and the action left it halted. -/
theorem Consistent.unexplained_perform (hs : s.Consistent) {a : Action} (ha : a.isTyped = false) :
    (s.perform a).simulator.Unexplained ↔
      s.LimitReached a ∨ s.Unexplained ∧ a.leavesHalted = true := by
  -- Actions other than steps and runs are never refused by the limit.
  have hedit : ∀ {q : Prop}, (∀ problem, (s.perform a).answer ≠ .refused problem) →
      ((s.perform a).simulator.Unexplained ↔ q) →
      ((s.perform a).simulator.Unexplained ↔ s.LimitReached a ∨ q) := by
    intro q hanswer h
    rw [h]
    exact ⟨.inr, fun h => h.resolve_left fun ⟨_, hlimit⟩ => hanswer _ hlimit⟩
  cases a with
  | evaluate line => cases ha
  | step =>
    refine hs.unexplained_step.trans (or_congr (limited_told _).symm ?_)
    exact (and_iff_left rfl).symm
  | run =>
    refine (hs.unexplained_runUntil _).trans (or_congr (limited_told _).symm ?_)
    exact (and_iff_left rfl).symm
  | runUntil cancel =>
    refine (hs.unexplained_runUntil cancel).trans (or_congr (limited_told _).symm ?_)
    exact (and_iff_left rfl).symm
  | assemble =>
    refine ⟨fun h => absurd h hs.assemble_explained.1, ?_⟩
    rintro (hlimit | ⟨-, hleaves⟩)
    · exact absurd ((limited_told _).mp hlimit) hs.assemble_explained.2
    · cases hleaves
  | load source =>
    apply hedit (fun _ h => nomatch h)
    exact ⟨fun h => (nomatch h.status), fun h => (nomatch h.2)⟩
  | loadFile contents =>
    refine hedit (fun problem => ?_) (s.unexplained_loadFile contents)
    unfold Simulator.perform
    dsimp only
    split <;> exact fun h => nomatch h
  | reset =>
    apply hedit (fun _ h => nomatch h)
    refine ⟨fun h => absurd h.status ?_, fun h => (nomatch h.2)⟩
    show s.reset.simulator.status ≠ .halted
    unfold Simulator.reset
    split
    · exact fun h => nomatch h
    · rename_i hm
      exact hs.status_of_none hm
  | setRegister r value =>
    refine hedit (fun problem => ?_) (hs.unexplained_setRegister r value)
    unfold Simulator.perform
    dsimp only [Reply.withAnswer]
    split <;> exact fun h => nomatch h
  | setMaxSteps limit =>
    apply hedit (fun _ h => nomatch h)
    exact ⟨fun h => ⟨⟨h.status, h.halt⟩, rfl⟩, fun h => ⟨h.1.status, h.1.halt⟩⟩
  | subscribe =>
    apply hedit (fun _ h => nomatch h)
    exact ⟨fun h => ⟨⟨h.status, h.halt⟩, rfl⟩, fun h => ⟨h.1.status, h.1.halt⟩⟩
  | poke address value =>
    apply hedit (fun _ h => nomatch h)
    exact (unexplained_poke address value).trans (and_iff_left rfl).symm

/-! ## Lists of actions -/

/-- The last action is performed on what the others have reached. -/
theorem reached_snoc (settings : Settings) (actions : List Action) (a : Action) :
    reached settings (actions ++ [a]) = ((reached settings actions).perform a).simulator := by
  unfold reached performAll
  rw [List.foldl_append]
  rfl

theorem cutOff_nil (settings : Settings) : ¬ CutOff settings [] := by
  rintro ⟨before, a, after, hsplit, -⟩
  exact absurd hsplit.symm (by simp)

/-- A list of actions is cut off by its last one, or it was and the last one leaves it so. -/
theorem cutOff_snoc {settings : Settings} {actions : List Action} {a : Action} :
    CutOff settings (actions ++ [a]) ↔
      (reached settings actions).LimitReached a ∨
        CutOff settings actions ∧ a.leavesHalted = true := by
  constructor
  · rintro ⟨before, b, after, hsplit, hlimit, hafter⟩
    rcases List.eq_nil_or_concat after with rfl | ⟨after, last, rfl⟩
    · obtain ⟨rfl, hlast⟩ := List.append_inj' hsplit rfl
      cases hlast
      exact .inl hlimit
    · rw [List.concat_eq_append, ← List.cons_append, ← List.append_assoc] at hsplit
      obtain ⟨rfl, hlast⟩ := List.append_inj' hsplit rfl
      cases hlast
      rw [List.concat_eq_append] at hafter
      refine .inr ⟨⟨before, b, after, rfl, hlimit, fun c hc => hafter c ?_⟩, hafter a ?_⟩
      · exact List.mem_append_left _ hc
      · exact List.mem_append_right _ (List.mem_singleton_self a)
  · rintro (hlimit | ⟨⟨before, b, after, rfl, hlimit, hafter⟩, ha⟩)
    · exact ⟨actions, a, [], rfl, hlimit, fun b hb => absurd hb List.not_mem_nil⟩
    · refine ⟨before, b, after ++ [a], by simp, hlimit, fun c hc => ?_⟩
      rcases List.mem_append.mp hc with hc | hc
      · exact hafter c hc
      · rw [List.mem_singleton.mp hc]
        exact ha

/-- Without lines typed by hand, a simulator is halted without a reason exactly if its last run was
cut off. -/
theorem unexplained_iff_cutOff (settings : Settings) (actions : List Action)
    (hactions : ∀ a ∈ actions, a.isTyped = false) :
    (reached settings actions).Unexplained ↔ CutOff settings actions := by
  induction actions using List.reverseRecOn with
  | nil => exact ⟨fun h => (nomatch h.status), fun h => absurd h (cutOff_nil settings)⟩
  | append_singleton actions a ih =>
    have hbefore := ih fun b hb => hactions b (List.mem_append_left _ hb)
    have ha := hactions a (List.mem_append_right _ (List.mem_singleton_self a))
    rw [reached_snoc, cutOff_snoc, (consistent_reached settings actions).unexplained_perform ha,
      hbefore]

/-- Whatever was done to a simulator but typing instructions, it is halted exactly if the machine
has a reason or the last run was cut off by the step limit, and in the second case there is no
reason. -/
theorem reason_of_actions (settings : Settings) (actions : List Action)
    (hactions : ∀ a ∈ actions, a.isTyped = false) :
    let s := reached settings actions
    (s.status = .halted ↔ s.halt? ≠ none ∨ CutOff settings actions) ∧
    (CutOff settings actions → s.halt? = none) := by
  intro s
  have hs : s.Consistent := consistent_reached settings actions
  have hcut := unexplained_iff_cutOff settings actions hactions
  refine ⟨⟨fun hstatus => ?_, ?_⟩, fun h => (hcut.mpr h).halt⟩
  · by_cases hhalt : s.halt? = none
    · exact .inr (hcut.mp ⟨hstatus, hhalt⟩)
    · exact .inl hhalt
  · rintro (hhalt | h)
    · exact hs.halted hhalt
    · exact (hcut.mpr h).status

/-- A run cut off after one instruction, then taken up again behind it and left to end. -/
theorem reason_of_actions_resumed :
    let actions : List Action :=
      [.load "INCA\n INCA\n END", .setMaxSteps 1, .run, .setRegister .pc 0xFE01, .setMaxSteps 9,
        .run]
    let s := reached .default actions
    s.halt? = some .finished ∧ s.status = .halted ∧ ¬ CutOff .default actions := by
  intro actions s
  obtain ⟨hhalted, hcut⟩ := reason_of_actions .default actions (by decide)
  have hhalt : s.halt? = some .finished := by decide +kernel
  refine ⟨hhalt, hhalted.mpr (.inl ?_), fun h => ?_⟩
  · rw [show (reached .default actions).halt? = _ from hhalt]
    exact fun h => nomatch h
  · have hnone : s.halt? = none := hcut h
    rw [hhalt] at hnone
    cases hnone

/-- A loop stopped by the step limit: halted, and nothing can say why. -/
theorem reason_of_actions_limit :
    let s := reached .default [.load "LOOP: BRA LOOP\n END", .setMaxSteps 3, .run]
    s.status = .halted ∧ s.halt? = none := by
  decide +kernel

end Simulator
end Teach6809
