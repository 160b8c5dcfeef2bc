import Teach6809.Proofs.Machine.Replay
import Teach6809.Proofs.Simulator.Consistent

/-!
# Mirrors of the data memory

An observer can keep a mirror of the data memory from the snapshots alone: it clears the mirror when
a snapshot says that nothing has been executed, and then makes the stores of the snapshot
(`Snapshot.update`). Steps and runs tell of every store once, also when they fail or are cut short,
and every clearing of the memory is announced. Main statement: whatever is done through the
simulator, as long as it is assembled the mirror is the data memory.
-/

namespace Teach6809

/-! ## Observers -/

/-- A mirror after a snapshot. -/
def Snapshot.update (mirror : Memory) (view : Snapshot) : Memory :=
  let start :=
    if view.status = .ready ∨ view.status = .notAssembled then Memory.empty else mirror
  start.replay view.writes

/-- The snapshots that an observer is sent with a reply. -/
def Reply.sentTo {α : Type} (r : Reply α) (observer : Nat) : List Snapshot :=
  (r.published.flatMap r.simulator.deliveries).filterMap fun delivery =>
    if delivery.1 = observer then some delivery.2 else none

/-- Whether an action changes the machine behind the simulator. -/
def Simulator.Action.isEdit : Action → Bool
  | .evaluate _ | .poke _ _ => true
  | _ => false

namespace Simulator

/-- The snapshots that an observer is sent while actions are done. -/
def received (observer : Nat) : Simulator → List Action → List Snapshot
  | _, [] => []
  | s, a :: rest =>
    (s.perform a).sentTo observer ++ received observer (s.perform a).simulator rest

/-- The mirror of an observer after actions, all zeros at first. -/
def mirror (s : Simulator) (observer : Nat) (actions : List Action) : Memory :=
  (s.received observer actions).foldl Snapshot.update .empty

/-- A new simulator with observers. -/
def watched (settings : Settings) (observers : Nat) : Simulator := { new settings with observers }

variable {s : Simulator} {m after : Machine} {data : Memory}

/-! ## Deliveries -/

/-- Every observer is sent a snapshot once. -/
theorem deliveries_to (s : Simulator) (view : Snapshot) (observer : Nat) :
    ((s.deliveries view).filterMap fun delivery =>
        if delivery.1 = observer then some delivery.2 else none) =
      if observer < s.observers then [view] else [] := by
  unfold deliveries
  induction s.observers with
  | zero => rfl
  | succ n ih =>
    rw [List.range_succ, List.map_append, List.filterMap_append, ih]
    rcases Nat.lt_trichotomy observer n with hlt | heq | hgt
    · rw [if_pos hlt, if_pos (by omega)]
      simp [show n ≠ observer by omega]
    · rw [if_neg (by omega), if_pos (by omega)]
      simp [heq]
    · rw [if_neg (by omega), if_neg (by omega)]
      simp [show n ≠ observer by omega]

/-- Whoever has subscribed is sent everything that is published. -/
theorem sentTo_eq {α : Type} (r : Reply α) {observer : Nat}
    (h : observer < r.simulator.observers) : r.sentTo observer = r.published := by
  unfold Reply.sentTo
  rw [List.filterMap_flatMap]
  simp only [deliveries_to, if_pos h]
  exact List.flatMap_singleton' _

theorem observers_assemble (s : Simulator) : s.assemble.simulator.observers = s.observers := by
  unfold assemble
  split
  · rfl
  · split <;> rfl

/-- Taking over a machine leaves the observers alone. -/
theorem observers_settle (s : Simulator) (m : Machine) (outcome : Machine.Outcome)
    (writes : List (Word × Byte)) (started : List PlacedInstruction) :
    (s.settle m outcome writes started).simulator.observers = s.observers := by
  cases outcome <;> rfl

theorem observers_step (s : Simulator) : s.step.simulator.observers = s.observers := by
  unfold step
  split
  · exact s.observers_assemble
  · split
    · rfl
    · exact s.observers_settle _ _ _ _

theorem observers_runAssembled (s : Simulator) (m : Machine) (cancel : Nat → Bool) :
    (s.runAssembled m cancel).simulator.observers = s.observers := by
  unfold runAssembled
  split
  · rfl
  · exact s.observers_settle _ _ _ _

/-- No run changes who has subscribed. -/
theorem observers_runUntil (s : Simulator) (cancel : Nat → Bool) :
    (s.runUntil cancel).simulator.observers = s.observers := by
  unfold runUntil
  split
  · exact s.observers_runAssembled _ cancel
  · dsimp only
    split
    · exact (observers_runAssembled _ _ cancel).trans s.observers_assemble
    · exact s.observers_assemble

/-- No action takes an observer away. -/
theorem observers_perform (s : Simulator) (a : Action) :
    s.observers ≤ (s.perform a).simulator.observers := by
  cases a with
  | assemble => exact Nat.le_of_eq s.observers_assemble.symm
  | step => exact Nat.le_of_eq s.observers_step.symm
  | run => exact Nat.le_of_eq (s.observers_runUntil _).symm
  | runUntil cancel => exact Nat.le_of_eq (s.observers_runUntil cancel).symm
  | subscribe => exact Nat.le_succ s.observers
  | load source | setMaxSteps limit | poke address value => exact Nat.le_refl s.observers
  | loadFile contents =>
    unfold perform loadFile
    cases contents with
    | none => exact Nat.le_refl s.observers
    | some bytes =>
      dsimp only
      cases String.fromUTF8? bytes <;> exact Nat.le_refl s.observers
  | reset =>
    show s.observers ≤ s.reset.simulator.observers
    unfold reset
    split <;> exact Nat.le_refl s.observers
  | setRegister r value =>
    show s.observers ≤ (s.setRegister r value).simulator.observers
    unfold setRegister
    split <;> exact Nat.le_refl s.observers
  | evaluate line =>
    have hafter : (s.evaluate line).1.observers = s.observers := by
      unfold evaluate
      split <;> rfl
    unfold perform
    dsimp only
    split
    all_goals
      rename_i hevaluate
      rw [hevaluate] at hafter
      exact Nat.le_of_eq hafter.symm

/-! ## One action -/

/-- The mirror is the data memory if there is one, and clear while nothing has been executed. -/
structure Mirrored (s : Simulator) (data : Memory) : Prop where
  consistent : s.Consistent
  same : ∀ m, s.machine = some m → m.data = data
  clear : s.status = .ready → data = .empty

namespace Mirrored

/-- Without a machine there is nothing to mirror. -/
theorem of_none (hs : s.Consistent) (hm : s.machine = none) (data : Memory) : s.Mirrored data := by
  refine ⟨hs, fun m h => ?_, fun h => ?_⟩
  · rw [hm] at h
    cases h
  · rw [hs.notAssembled.mpr hm] at h
    cases h

/-- A snapshot is sent with the stores since the mirror was right, or of a machine that has stored
nothing. -/
theorem snapshotWith {writes : List (Word × Byte)} (hs : s.Consistent) (hm : s.machine = some m)
    (hdata : m.data = (if s.status = .ready then Memory.empty else data).replay writes)
    (hready : s.status = .ready → writes = []) :
    s.Mirrored (Snapshot.update data (s.snapshotWith writes)) := by
  have hupdate : Snapshot.update data (s.snapshotWith writes) = m.data := by
    have hassembled : s.status ≠ .notAssembled := hs.status_ne hm
    simp only [Snapshot.update, status_snapshotWith, writes_snapshotWith, hassembled, or_false]
    exact hdata.symm
  rw [hupdate]
  refine ⟨hs, fun other hother => ?_, fun h => ?_⟩
  · rw [hm] at hother
    cases hother
    rfl
  · rw [hdata, if_pos h, hready h]
    rfl

/-- A machine is taken over with the stores that lead to its data memory. -/
theorem settle {outcome : Machine.Outcome} {writes : List (Word × Byte)}
    {started : List PlacedInstruction}
    (hafter : (s.settle after outcome writes started).simulator.Consistent)
    (hdata : after.data = data.replay writes) :
    (s.settle after outcome writes started).simulator.Mirrored
      ((s.settle after outcome writes started).published.foldl Snapshot.update data) := by
  rcases outcome with problem | _ | reason
  all_goals exact snapshotWith hafter rfl hdata fun h => nomatch h

/-- A new machine has an empty data memory, and its view clears the mirror. -/
theorem assemble (h : s.Mirrored data) :
    s.assemble.simulator.Mirrored (s.assemble.published.foldl Snapshot.update data) := by
  have hafter := h.consistent.assemble
  unfold Simulator.assemble at hafter ⊢
  split
  · exact of_none (.clear s) rfl _
  · rename_i hm
    split
    · exact of_none h.consistent hm _
    · rename_i p hp
      rw [hm, hp] at hafter
      exact snapshotWith hafter rfl rfl fun _ => rfl

/-- The view of a step has what the step stored. -/
theorem step (h : s.Mirrored data) :
    s.step.simulator.Mirrored (s.step.published.foldl Snapshot.update data) := by
  cases hm : s.machine with
  | none =>
    rw [Simulator.step, hm]
    exact h.assemble
  | some m =>
    by_cases hstatus : s.status = .halted
    · rw [step_of_halted hm hstatus]
      exact h
    · have hafter := h.consistent.step
      have hrunning := h.consistent.halt_of_status hm hstatus
      rw [step_of_machine hm hstatus] at hafter ⊢
      apply settle hafter
      rw [← h.same m hm]
      exact m.stepped.data hrunning

/-- The view of a run has what its steps stored. -/
theorem runAssembled (h : s.Mirrored data) (hm : s.machine = some m) (cancel : Nat → Bool) :
    (s.runAssembled m cancel).simulator.Mirrored
      ((s.runAssembled m cancel).published.foldl Snapshot.update data) := by
  have hafter := h.consistent.runAssembled hm cancel
  unfold Simulator.runAssembled at hafter ⊢
  by_cases hstatus : s.status = .halted
  · rw [if_pos hstatus]
    exact h
  · have hrunning := h.consistent.halt_of_status hm hstatus
    rw [if_neg hstatus] at hafter ⊢
    apply settle hafter
    rw [← h.same m hm]
    exact Machine.data_of_runUntil hrunning s.maxSteps _

/-- So has that of a run which assembles first. -/
theorem runUntil (h : s.Mirrored data) (cancel : Nat → Bool) :
    (s.runUntil cancel).simulator.Mirrored
      ((s.runUntil cancel).published.foldl Snapshot.update data) := by
  unfold Simulator.runUntil
  split
  · rename_i m hm
    exact h.runAssembled hm cancel
  · -- The snapshot of the assembly comes before that of the run.
    dsimp only
    split
    · rename_i view m _ hm
      rw [List.foldl_append]
      exact h.assemble.runAssembled hm cancel
    · exact h.assemble

/-- The view of a machine that was taken back is ready, so the mirror is cleared as well. -/
theorem reset (h : s.Mirrored data) :
    s.reset.simulator.Mirrored (s.reset.published.foldl Snapshot.update data) := by
  have hafter := h.consistent.reset
  unfold Simulator.reset at hafter ⊢
  split
  · rename_i m hm
    rw [hm] at hafter
    exact snapshotWith hafter rfl rfl fun _ => rfl
  · rename_i hm
    exact of_none h.consistent hm _

/-- Writing a register stores nothing. -/
theorem setRegister (h : s.Mirrored data) (r : Register) (value : Word) :
    (s.setRegister r value).simulator.Mirrored
      ((s.setRegister r value).published.foldl Snapshot.update data) := by
  have hafter := h.consistent.setRegister r value
  unfold Simulator.setRegister at hafter ⊢
  split
  · exact h
  · rename_i m hm
    rw [hm] at hafter
    refine snapshotWith hafter rfl ?_ fun _ => rfl
    show m.data = if (if r = .pc ∧ s.status = .halted then Status.running else s.status) = .ready
      then Memory.empty else data
    rw [h.same m hm]
    -- Clearing the mirror makes no difference to a program that is ready.
    split
    · rfl
    · split
      · rename_i hready
        exact h.clear hready
      · rfl

end Mirrored

/-- An action that is not an edit keeps the mirror right. -/
theorem Mirrored.perform (h : s.Mirrored data) {a : Action} (ha : a.isEdit = false) :
    (s.perform a).simulator.Mirrored
      ((s.perform a).published.foldl Snapshot.update data) := by
  cases a with
  | load source => exact .of_none (.clear _) rfl _
  | loadFile contents =>
    have hafter := h.consistent.loadFile contents
    unfold Simulator.perform Simulator.loadFile at hafter ⊢
    cases contents with
    | none => exact h
    | some bytes =>
      dsimp only at hafter ⊢
      cases hbytes : String.fromUTF8? bytes with
      | none => exact h
      | some source => exact .of_none (.clear _) rfl _
  | assemble => exact h.assemble
  | step => exact h.step
  | run => exact h.runUntil _
  | runUntil cancel => exact h.runUntil cancel
  | reset => exact h.reset
  | setRegister r value => exact h.setRegister r value
  | setMaxSteps limit => exact ⟨h.consistent.perform (.setMaxSteps limit), h.same, h.clear⟩
  | subscribe => exact ⟨h.consistent.perform .subscribe, h.same, h.clear⟩
  | evaluate line | poke address value => cases ha

/-! ## All actions -/

/-- A mirror is kept up through all actions that are no edits. -/
theorem Mirrored.performAll {observer : Nat} (h : s.Mirrored data)
    (hwatched : observer < s.observers) (actions : List Action)
    (hactions : ∀ a ∈ actions, a.isEdit = false) :
    (s.performAll actions).Mirrored
      ((s.received observer actions).foldl Snapshot.update data) := by
  induction actions generalizing s data with
  | nil => exact h
  | cons a rest ih =>
    have hafter := h.perform (hactions a List.mem_cons_self)
    have hobservers := Nat.lt_of_lt_of_le hwatched (s.observers_perform a)
    rw [received, sentTo_eq _ hobservers, List.foldl_append]
    exact ih hafter hobservers fun b hb => hactions b (List.mem_cons_of_mem a hb)

/-- Whatever is done through a new simulator, the mirror that an observer keeps from the snapshots
is the data memory as long as there is one. -/
theorem mirror_of_actions (settings : Settings) (observers observer : Nat)
    (hobserver : observer < observers) (actions : List Action)
    (hactions : ∀ a ∈ actions, a.isEdit = false) (m : Machine)
    (hm : ((watched settings observers).performAll actions).machine = some m) :
    (watched settings observers).mirror observer actions = m.data := by
  have hfresh : (watched settings observers).Mirrored .empty :=
    .of_none (.clear (watched settings observers)) rfl _
  exact ((hfresh.performAll hobserver actions hactions).same m hm).symm

/-- A word stored across the end of the data memory in a run that the step limit cut off, then a
jump into the middle of an instruction. -/
theorem mirror_of_actions_faulted :
    let actions : List Action :=
      [.load "LDX #$1234\n STX $FFFF\n JMP $FE01\n END", .step, .setMaxSteps 2, .run, .subscribe,
        .setRegister .pc 0xFE06, .run]
    let s := (watched .default 1).performAll actions
    let seen := (watched .default 1).mirror 0 actions
    ∃ m, s.machine = some m ∧ m.halt = some .faulted ∧ seen = m.data ∧
      seen.read 0xFFFF = 0x12 ∧ seen.read 0x0000 = 0x34 := by
  intro actions s seen
  have hhalt : s.halt? = some .faulted := by decide +kernel
  obtain ⟨m, hm, hfaulted⟩ := Option.bind_eq_some_iff.mp hhalt
  have hseen : seen = m.data := mirror_of_actions .default 1 0 (by decide) actions (by decide) m hm
  exact ⟨m, hm, hfaulted, hseen, by decide +kernel, by decide +kernel⟩

end Simulator
end Teach6809
