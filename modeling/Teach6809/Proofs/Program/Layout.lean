import Teach6809.Program
import Teach6809.Proofs.Instruction.Encoding

/-!
# The layout of a program

`Program.position` counts addresses as natural numbers: the position of an instruction is the
origin plus the sizes of the instructions before it, and the position after the last one is the
end, which may be `$10000`. A program is laid out (`Program.Laid`) if every instruction is at its
position and the end is within reach. Then an address leads to one instruction at most, and every
label stands for a position.
-/

namespace Teach6809

/-! ## Sizes -/

namespace PlacedInstruction

/-- How many bytes instructions take together. -/
def totalSize : List PlacedInstruction → Nat
  | [] => 0
  | i :: rest => i.size + totalSize rest

theorem totalSize_append (is js : List PlacedInstruction) :
    totalSize (is ++ js) = totalSize is + totalSize js := by
  induction is with
  | nil => exact (Nat.zero_add _).symm
  | cons i rest ih =>
    show i.size + totalSize (rest ++ js) = i.size + totalSize rest + totalSize js
    rw [ih, Nat.add_assoc]

/-- What is true of the bytes of each instruction is true of all of them. -/
theorem length_flatMap_bytes {is : List PlacedInstruction}
    (h : ∀ i ∈ is, i.bytes.length = i.size) : (is.flatMap bytes).length = totalSize is := by
  induction is with
  | nil => rfl
  | cons i rest ih =>
    have hrest := ih fun j hj => h j (List.mem_cons_of_mem i hj)
    rw [List.flatMap_cons, List.length_append, hrest, h i List.mem_cons_self]
    rfl

end PlacedInstruction

namespace Program

/-! ## Positions -/

/-- The address of the instruction with the given number; the number of all instructions gives the
end of the program. -/
def position (p : Program) (k : Nat) : Nat :=
  origin.toNat + PlacedInstruction.totalSize (p.lines.take k)

/-- The number of an instruction as an address of the machine. The number of all instructions
stands for the end. -/
def addressOf (p : Program) (k : Nat) : Word :=
  match p.lines[k]? with
  | some i => i.address
  | none => UInt16.ofNat p.stop

/-- Every instruction is at its position, and the last ends at the top of memory or below. -/
structure Laid (p : Program) : Prop where
  address : ∀ k i, p.lines[k]? = some i → i.address.toNat = p.position k
  room : p.position p.lines.length ≤ Memory.size

variable {p : Program} {k : Nat} {i : PlacedInstruction}

theorem position_zero (p : Program) : p.position 0 = origin.toNat := by
  rw [position, List.take_zero]
  rfl

theorem position_succ (hk : p.lines[k]? = some i) :
    p.position (k + 1) = p.position k + i.size := by
  unfold position
  rw [List.take_add_one, hk, PlacedInstruction.totalSize_append, ← Nat.add_assoc]
  rfl

theorem position_lt_succ (hk : p.lines[k]? = some i) : p.position k < p.position (k + 1) := by
  have hsize := i.size_pos
  rw [position_succ hk]
  omega

/-- Positions grow with the number of the instruction. -/
theorem position_lt {j : Nat} (hjk : j < k) (hk : k ≤ p.lines.length) :
    p.position j < p.position k := by
  -- The instruction before `k` moves the position on; all before it are there by induction.
  induction k with
  | zero => omega
  | succ k ih =>
    have hlookup : p.lines[k]? = some p.lines[k] := List.getElem?_eq_getElem (by omega)
    have hlast := position_lt_succ hlookup
    rcases Nat.lt_or_ge j k with hlt | hge
    · have := ih hlt (by omega)
      omega
    · have : j = k := by omega
      rwa [this]

theorem position_le {j : Nat} (hjk : j ≤ k) (hk : k ≤ p.lines.length) :
    p.position j ≤ p.position k := by
  rcases Nat.lt_or_ge j k with hlt | hge
  · exact Nat.le_of_lt (position_lt hlt hk)
  · have heq : j = k := by omega
    exact Nat.le_of_eq (congrArg p.position heq)

/-- Different numbers have different positions. -/
theorem position_inj {j : Nat} (hj : j ≤ p.lines.length) (hk : k ≤ p.lines.length)
    (h : p.position j = p.position k) : j = k := by
  rcases Nat.lt_trichotomy j k with hlt | heq | hgt
  · have := position_lt hlt hk
    omega
  · exact heq
  · have := position_lt hgt hj
    omega

theorem length_of_getElem? (hk : p.lines[k]? = some i) : k < p.lines.length :=
  (List.getElem?_eq_some_iff.mp hk).1

/-- The instruction that a line number leads to. -/
theorem indexFromLine_le (p : Program) (line : Nat) : p.indexFromLine line ≤ p.lines.length := by
  unfold indexFromLine
  exact (List.takeWhile_sublist _).length_le

/-- A declared label has an address. -/
theorem labelAddress?_of_declares {name : String} (h : p.labels.declares name = true) :
    ∃ address, p.labelAddress? name = some address := by
  unfold LabelTable.declares at h
  obtain ⟨line, hline⟩ := Option.isSome_iff_exists.mp h
  unfold labelAddress?
  rw [hline]
  exact ⟨_, rfl⟩

theorem labelTarget?_of_declares {name : String} (h : p.labels.declares name = true) :
    ∃ address, p.labelTarget? name = some address := by
  obtain ⟨address, haddress⟩ := labelAddress?_of_declares h
  exact ⟨UInt16.ofNat address, by rw [labelTarget?, haddress]; rfl⟩

/-- Where labels are depends on the lines, addresses and sizes of instructions only. -/
theorem labelTarget?_map (p : Program) {f : PlacedInstruction → PlacedInstruction}
    (hf : ∀ i, (f i).line = i.line ∧ (f i).address = i.address ∧ (f i).size = i.size) :
    ({ p with lines := p.lines.map f } : Program).labelTarget? = p.labelTarget? := by
  have hindex : ∀ line,
      ({ p with lines := p.lines.map f } : Program).indexFromLine line = p.indexFromLine line := by
    intro line
    unfold indexFromLine
    rw [List.takeWhile_map, List.length_map]
    refine congrArg (fun q => (p.lines.takeWhile q).length) (funext fun i => ?_)
    exact congrArg (fun k => decide (k < line)) (hf i).1
  have hstop : ({ p with lines := p.lines.map f } : Program).stop = p.stop := by
    unfold stop
    rw [List.getLast?_map]
    cases p.lines.getLast? with
    | none => rfl
    | some last =>
      show (f last).address.toNat + (f last).size = last.address.toNat + last.size
      rw [(hf last).2.1, (hf last).2.2]
  funext name
  unfold labelTarget? labelAddress?
  rw [hstop]
  simp only [hindex, List.getElem?_map]
  congr 2
  funext line
  cases p.lines[p.indexFromLine line]? with
  | none => rfl
  | some i => exact congrArg UInt16.toNat (hf i).2.1

namespace Laid

/-! ## Addresses -/

/-- The end of a program is the position after its last instruction. -/
theorem stop_eq (hp : p.Laid) : p.stop = p.position p.lines.length := by
  unfold stop
  rw [List.getLast?_eq_getElem?]
  split
  · rename_i last hlast
    have hlt := length_of_getElem? hlast
    have hcount : p.lines.length = p.lines.length - 1 + 1 := by omega
    rw [hp.address _ _ hlast, ← position_succ hlast, ← hcount]
  · rename_i hnone
    have hempty : p.lines.length = 0 := by
      have := List.getElem?_eq_none_iff.mp hnone
      omega
    rw [hempty, position_zero]

/-- As a word of the machine, the address of a number is its position. -/
theorem addressOf_eq (hp : p.Laid) (hk : k ≤ p.lines.length) :
    p.addressOf k = UInt16.ofNat (p.position k) := by
  unfold addressOf
  split
  · rename_i i hi
    rw [← hp.address k i hi, UInt16.ofNat_toNat]
  · rename_i hnone
    have : k = p.lines.length := by
      have := List.getElem?_eq_none_iff.mp hnone
      omega
    rw [hp.stop_eq, this]

/-- The address after an instruction is that of the next number. -/
theorem next_eq (hp : p.Laid) (hk : p.lines[k]? = some i) : i.next = p.addressOf (k + 1) := by
  have hlt := length_of_getElem? hk
  rw [hp.addressOf_eq hlt, position_succ hk, UInt16.ofNat_add, ← hp.address k i hk,
    UInt16.ofNat_toNat]
  rfl

/-- An address leads to one instruction at most. -/
theorem index_unique (hp : p.Laid) {j : Nat} {i' : PlacedInstruction} (hj : p.lines[j]? = some i')
    (hk : p.lines[k]? = some i) (h : i'.address = i.address) : j = k := by
  -- Equal addresses are equal positions, and those are strictly increasing.
  have hjlt := length_of_getElem? hj
  have hklt := length_of_getElem? hk
  apply position_inj (Nat.le_of_lt hjlt) (Nat.le_of_lt hklt)
  rw [← hp.address j i' hj, ← hp.address k i hk, h]

theorem indexOf?_eq_some_iff (hp : p.Laid) {address : Word} :
    p.indexOf? address = some k ↔ ∃ i, p.lines[k]? = some i ∧ i.address = address := by
  unfold indexOf?
  rw [List.findIdx?_eq_some_iff_getElem]
  constructor
  · rintro ⟨hk, haddress, -⟩
    exact ⟨p.lines[k], List.getElem?_eq_getElem hk, by simpa using haddress⟩
  · rintro ⟨i, hi, haddress⟩
    obtain ⟨hk, rfl⟩ := List.getElem?_eq_some_iff.mp hi
    refine ⟨hk, by simpa using haddress, fun j hj => ?_⟩
    intro hfirst
    have hsame := hp.index_unique (List.getElem?_eq_getElem (by omega)) hi
      ((by simpa using hfirst : p.lines[j].address = address).trans haddress.symm)
    omega

theorem at?_eq_some_iff (hp : p.Laid) {address : Word} :
    p.at? address = some i ↔ i ∈ p.lines ∧ i.address = address := by
  unfold at?
  constructor
  · intro h
    exact ⟨List.mem_of_find?_eq_some h, by simpa using List.find?_some h⟩
  · rintro ⟨hmem, haddress⟩
    cases hfind : p.lines.find? fun i => i.address == address with
    | none =>
      have := List.find?_eq_none.mp hfind i hmem
      simp [haddress] at this
    | some i' =>
      obtain ⟨k, hk⟩ := List.getElem?_of_mem hmem
      obtain ⟨j, hj⟩ := List.getElem?_of_mem (List.mem_of_find?_eq_some hfind)
      have haddress' : i'.address = address := by simpa using List.find?_some hfind
      have hsame := hp.index_unique hj hk (haddress'.trans haddress.symm)
      rw [hsame, hk] at hj
      exact hj.symm

/-- No instruction is at the end, not even when the end is cut to zero. -/
theorem at?_stop (hp : p.Laid) : p.at? (UInt16.ofNat p.stop) = none := by
  cases h : p.at? (UInt16.ofNat p.stop) with
  | none => rfl
  | some i =>
    -- The end is above every position; cut to sixteen bits it is itself or zero, below the origin.
    obtain ⟨hmem, haddress⟩ := hp.at?_eq_some_iff.mp h
    obtain ⟨k, hk⟩ := List.getElem?_of_mem hmem
    have hlt := length_of_getElem? hk
    have hposition := hp.address k i hk
    have hbelow := position_lt hlt (Nat.le_refl _)
    have habove := position_le (p := p) (Nat.zero_le k) (Nat.le_of_lt hlt)
    have hroom := hp.room
    have horigin : origin.toNat = 0xFE00 := rfl
    have hsize : Memory.size = 0x10000 := rfl
    rw [haddress, hp.stop_eq, UInt16.toNat_ofNat'] at hposition
    rw [position_zero] at habove
    omega

/-- The address of a number leads back to the instruction with this number, that of the end to
none. -/
theorem at?_addressOf (hp : p.Laid) (k : Nat) : p.at? (p.addressOf k) = p.lines[k]? := by
  unfold addressOf
  cases hi : p.lines[k]? with
  | some i => exact hp.at?_eq_some_iff.mpr ⟨List.mem_of_getElem? hi, rfl⟩
  | none => exact hp.at?_stop

/-! ## Labels -/

/-- A label stands for the position of the first instruction on or below its line. -/
theorem labelAddress?_eq (hp : p.Laid) (name : String) :
    p.labelAddress? name =
      (p.labels.line? name).map fun line => p.position (p.indexFromLine line) := by
  unfold labelAddress?
  congr 1
  funext line
  have hle := p.indexFromLine_le line
  split
  · rename_i i hi
    exact hp.address _ i hi
  · rename_i hnone
    have : p.indexFromLine line = p.lines.length := by
      have := List.getElem?_eq_none_iff.mp hnone
      omega
    rw [this, hp.stop_eq]

/-- The machine finds a label at the address of an instruction number. -/
theorem labelTarget?_eq (hp : p.Laid) (name : String) :
    p.labelTarget? name =
      (p.labels.line? name).map fun line => p.addressOf (p.indexFromLine line) := by
  unfold labelTarget?
  rw [hp.labelAddress?_eq, Option.map_map]
  congr 1
  funext line
  rw [hp.addressOf_eq (p.indexFromLine_le line)]
  rfl

end Laid
end Program
end Teach6809
