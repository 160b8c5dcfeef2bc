import Teach6809.Proofs.Machine.Run

/-!
# Replaying stores

A machine notes every byte that an instruction stores. Replaying these stores on the data memory as
it was before gives the data memory afterwards: for an instruction, for a step, and for a whole run,
although a run does not collect the stores of the step that ends it.
-/

namespace Teach6809

/-- The memory after stores, in order. -/
def Memory.replay (memory : Memory) (stores : List (Word × Byte)) : Memory :=
  stores.foldl (fun memory store => memory.write store.1 store.2) memory

/-- Entries can be put into a memory in two goes. -/
theorem Memory.replay_append (memory : Memory) (first second : List (Word × Byte)) :
    memory.replay (first ++ second) = (memory.replay first).replay second :=
  List.foldl_append

namespace Machine

variable {m after : Machine} {operand : Operand} {next : Word} {flow : Flow}

/-! ## Instructions -/

/-- The second machine has made the given stores, and noted them. -/
structure Stores (m after : Machine) (stored : List (Word × Byte)) : Prop where
  writes : after.writes = m.writes ++ stored
  data : after.data = m.data.replay stored

namespace Stores

/-- What does not touch the data memory stores nothing. -/
theorem nothing (hwrites : after.writes = m.writes) (hdata : after.data = m.data) :
    m.Stores after [] :=
  ⟨hwrites.trans (List.append_nil _).symm, hdata⟩

theorem store (m : Machine) (address : Word) (value : Byte) :
    m.Stores (m.store address value) [(address, value)] := ⟨rfl, rfl⟩

/-- What is stored one after the other is stored together. -/
theorem trans {n : Machine} {first second : List (Word × Byte)} (h : m.Stores n first)
    (h' : n.Stores after second) : m.Stores after (first ++ second) := by
  constructor
  · rw [h'.writes, h.writes, List.append_assoc]
  · rw [h'.data, h.data, Memory.replay_append]

end Stores

/-- What storing a register at an address notes: its byte, or the two bytes of a wide register, the
high one first. -/
def entries (m : Machine) (source : MovedRegister) (address : Word) : List (Word × Byte) :=
  if source.isWide then
    [(address, Word.high (m.get source.register)), (address + 1, Word.low (m.get source.register))]
  else [(address, (m.get source.register).toUInt8)]

/-- What an instruction stores. -/
def storedBy (m : Machine) (instruction : Mnemonic) (operand : Operand) : List (Word × Byte) :=
  match instruction, m.address operand with
  | .store source, .ok address => m.entries source address
  | _, _ => []

/-- A load stores nothing. -/
theorem load_stores {target : MovedRegister} (h : m.load target operand = .ok after) :
    m.Stores after [] := by
  unfold load at h
  split at h
  all_goals
    obtain ⟨value, -, h⟩ := Except.bind_eq_ok.mp h
    cases h
    exact .nothing rfl rfl

/-- A store stores the bytes of its register. -/
theorem storeRegister_stores {source : MovedRegister}
    (h : m.storeRegister source operand = .ok after) :
    m.Stores after (m.storedBy (.store source) operand) := by
  unfold storeRegister at h
  obtain ⟨address, haddress, h⟩ := Except.bind_eq_ok.mp h
  have hstored : m.storedBy (.store source) operand = m.entries source address := by
    simp only [storedBy, haddress]
  rw [hstored, entries]
  -- A wide register makes two stores, the high byte first.
  dsimp only at h
  split at h
  · rename_i hwide
    cases h
    rw [if_pos hwide]
    exact (Stores.store _ _ _).trans (.store _ _ _)
  · rename_i hnarrow
    cases h
    rw [if_neg hnarrow]
    exact .store _ _ _

/-- An operation with an operand stores nothing. -/
theorem binary_stores {operation : BinaryOperation} {acc : Accumulator}
    (h : m.binary operation acc operand = .ok after) : m.Stores after [] := by
  unfold binary at h
  obtain ⟨value, -, h⟩ := Except.bind_eq_ok.mp h
  cases h
  split <;> exact .nothing rfl rfl

/-- Every instruction notes what it stores, and stores nothing else. -/
theorem execute_stores {instruction : Mnemonic}
    (h : m.execute instruction operand next = .ok (after, flow)) :
    m.Stores after (m.storedBy instruction operand) := by
  cases instruction with
  | load target =>
    obtain ⟨loaded, hload, heq⟩ := Except.map_eq_ok.mp h
    cases heq
    exact load_stores hload
  | store source =>
    obtain ⟨stored, hstore, heq⟩ := Except.map_eq_ok.mp h
    cases heq
    exact storeRegister_stores hstore
  | binary operation acc =>
    obtain ⟨computed, hcompute, heq⟩ := Except.map_eq_ok.mp h
    cases heq
    exact binary_stores hcompute
  | unary operation acc =>
    cases h
    exact .nothing rfl rfl
  | tfr | exg =>
    obtain ⟨registers, -, heq⟩ := Except.map_eq_ok.mp h
    obtain rfl : _ = after := congrArg Prod.fst heq
    exact .nothing rfl rfl
  | nop | rts | swi | stop | branch | bsr | jsr | jmp =>
    -- Whatever steers control changes nothing but the call stack.
    obtain ⟨callStack, rfl⟩ := exists_callStack_of_execute rfl h
    exact .nothing rfl rfl

/-! ## Steps -/

/-- A step of a running machine forgets the stores noted before and makes those it notes. -/
theorem Stepped.data {outcome : Outcome} (h : m.Stepped after outcome) (hrunning : m.halt = none) :
    after.data = m.data.replay after.writes := by
  cases h with
  | stopped hhalt =>
    rw [hrunning] at hhalt
    cases hhalt
  | exhausted | missing | failed => rfl
  | executed hhalt hcurrent hexecute =>
    rename_i i executed flow
    have hstores := execute_stores hexecute
    have hwrites : executed.writes = m.ready.storedBy i.mnemonic i.operand := hstores.writes
    have hdata : executed.data = m.data.replay executed.writes := by
      rw [hwrites]
      exact hstores.data
    cases flow <;> exact hdata

/-! ## Runs -/

/-- A run from a machine whose data memory came about by the stores collected so far. -/
theorem data_of_continueRun {cancel : Nat → Machine → Bool} {left count : Nat}
    {writes : List (Word × Byte)} {started : List PlacedInstruction} {base : Memory}
    (hrunning : m.halt = none) (hdata : m.data = base.replay writes.reverse) :
    (continueRun cancel left count m writes started).machine.data =
      base.replay (continueRun cancel left count m writes started).writes := by
  -- The step that ends a run stores nothing; every other adds its stores to those collected.
  have hended : ∀ {m after : Machine} {outcome : Outcome} {writes : List (Word × Byte)},
      m.halt = none → m.data = base.replay writes.reverse → m.step = (after, outcome) →
      outcome ≠ .ok none → after.data = base.replay writes.reverse := by
    intro m after outcome writes hrunning hdata hstep hended
    have hstepped := m.stepped
    rw [hstep] at hstepped
    rw [hstepped.data hrunning, hstepped.writes hrunning hended]
    exact hdata
  have hnext : ∀ {m after : Machine} {writes : List (Word × Byte)},
      m.halt = none → m.data = base.replay writes.reverse → m.step = (after, .ok none) →
      after.halt = none ∧ after.data = base.replay (after.writes.reverse ++ writes).reverse := by
    intro m after writes hrunning hdata hstep
    have hstepped := m.stepped
    rw [hstep] at hstepped
    refine ⟨hstepped.halt rfl, ?_⟩
    rw [List.reverse_append, List.reverse_reverse, Memory.replay_append, ← hdata]
    exact hstepped.data hrunning
  fun_induction continueRun cancel left count m writes started with
  | case1 left count m writes started _ _ after problem hstep =>
    exact hended hrunning hdata hstep (by rintro ⟨⟩)
  | case2 left count m writes started _ _ after reason hstep =>
    exact hended hrunning hdata hstep (by rintro ⟨⟩)
  | case3 left count m writes started _ _ after hstep =>
    exact (hnext hrunning hdata hstep).2
  | case4 count m writes started _ _ after hstep =>
    exact (hnext hrunning hdata hstep).2
  | case5 count m writes started _ after hstep _ _ left ih =>
    obtain ⟨hhalt, hafter⟩ := hnext hrunning hdata hstep
    exact ih hhalt hafter

/-- Replaying the stores that a run collected gives the data memory it leaves. -/
theorem data_of_runUntil (hrunning : m.halt = none) (limit : Nat)
    (cancel : Nat → Machine → Bool) :
    (m.runUntil limit cancel).machine.data = m.data.replay (m.runUntil limit cancel).writes :=
  data_of_continueRun hrunning rfl

end Machine
end Teach6809
