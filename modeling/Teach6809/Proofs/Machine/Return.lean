import Mathlib.Data.List.Induction
import Teach6809.Proofs.Machine.Fault
import Teach6809.Proofs.Machine.Unrolled

/-!
# Return addresses

Only calls put an address on the call stack, and no call is the last instruction; so every return
address is the start of an instruction (`Program.IsReturnAddress`), wherever jumps have led. A step
can fail only after control was sent to an address that is computed or given as a number
(`Machine.Action.sendsAnywhere`). Main statement: both hold whatever is done to a machine with an
assembled program, lines typed by hand apart.
-/

namespace Teach6809

/-! ## Places of a program -/

namespace Program

/-- An address that a call of the program returns to: the start of the instruction after it. -/
def IsReturnAddress (p : Program) (address : Word) : Prop :=
  ∃ k i j, p.lines[k]? = some i ∧ (i.mnemonic = .bsr ∨ i.mnemonic = .jsr) ∧
    p.lines[k + 1]? = some j ∧ j.address = address

/-- The start of an instruction, or the end of the program. -/
def IsPlace (p : Program) (address : Word) : Prop :=
  ∃ k ≤ p.lines.length, p.addressOf k = address

variable {p : Program} {i : PlacedInstruction} {address : Word}

/-- A return address is a place of the program. -/
theorem IsReturnAddress.isPlace (h : p.IsReturnAddress address) : p.IsPlace address := by
  obtain ⟨k, i, j, -, -, hj, rfl⟩ := h
  refine ⟨k + 1, Nat.le_of_lt (length_of_getElem? hj), ?_⟩
  rw [addressOf, hj]

/-- A call is not the last instruction, so the address after it is that of another one. -/
theorem WellFormed.isReturnAddress_next (hp : p.WellFormed) (hi : i ∈ p.lines)
    (hcall : i.mnemonic = .bsr ∨ i.mnemonic = .jsr) : p.IsReturnAddress i.next := by
  obtain ⟨k, hk⟩ := List.getElem?_of_mem hi
  have hstop : i.mnemonic ≠ .stop := by
    rcases hcall with hcall | hcall <;> rw [hcall] <;> decide
  obtain ⟨j, hj, hnext⟩ := hp.exists_next hk hstop
  exact ⟨k, i, j, hk, hcall, hj, hnext.symm⟩

/-- Behind an instruction there is another, or the end. -/
theorem WellFormed.isPlace_next (hp : p.WellFormed) (hi : i ∈ p.lines) : p.IsPlace i.next := by
  obtain ⟨k, hk⟩ := List.getElem?_of_mem hi
  exact ⟨k + 1, length_of_getElem? hk, (hp.laid.next_eq hk).symm⟩

/-- The origin is a place. -/
theorem WellFormed.isPlace_origin (hp : p.WellFormed) : p.IsPlace origin := by
  refine ⟨0, Nat.zero_le _, ?_⟩
  rw [hp.laid.addressOf_eq (Nat.zero_le _), position_zero, UInt16.ofNat_toNat]

/-- A label leads to a place of the program. -/
theorem Laid.isPlace_of_label (hp : p.Laid) {name : String}
    (h : p.labelTarget? name = some address) : p.IsPlace address := by
  rw [hp.labelTarget?_eq] at h
  obtain ⟨line, -, rfl⟩ := Option.map_eq_some_iff.mp h
  exact ⟨p.indexFromLine line, p.indexFromLine_le line, rfl⟩

end Program

/-! ## Where control can be sent -/

/-- Whether an instruction is a jump or call to an address that is given as a number or computed. -/
def CheckedInstruction.aimsAnywhere (i : CheckedInstruction) : Bool :=
  match i.mnemonic, i.operand with
  | .jmp, .direct _ | .jmp, .extended _ | .jmp, .indexed _ _ => true
  | .jsr, .direct _ | .jsr, .extended _ | .jsr, .indexed _ _ => true
  | _, _ => false

namespace Machine

/-- Whether a line is typed by hand. -/
def Action.isTyped : Action → Bool
  | .evaluate _ => true
  | _ => false

/-- Whether a single action can send control anywhere: it executes a jump or call to an address that
is computed or given as a number, moves a register to `PC`, or writes `PC` from outside. -/
def Action.sendsAnywhere (m : Machine) : Action → Bool
  | .step => m.starting?.any fun i => i.aimsAnywhere || i.writesPc
  | .set r _ => r == .pc
  | _ => false

/-- Whether an action is an edit from outside that does not touch `PC`. -/
def Action.leavesPc : Action → Bool
  | .set r _ => r != .pc
  | .poke _ _ => true
  | _ => false

variable {p : Program} {m after : Machine} {next target : Word}

/-- A branch, jump or call goes to a label, or anywhere. -/
theorem label_or_aimsAnywhere {labels : LabelTable} {i : CheckedInstruction} (hi : i.Sound labels)
    (htransfer : (∃ condition, i.mnemonic = .branch condition) ∨ i.mnemonic = .bsr ∨
      i.mnemonic = .jsr ∨ i.mnemonic = .jmp) :
    (∃ name, i.operand = .label name) ∨ i.aimsAnywhere = true := by
  have hopcode := hi.opcode
  rw [← hi.mode] at hopcode
  rcases htransfer with ⟨condition, hmnemonic⟩ | hmnemonic | hjump
  · rw [hmnemonic] at hopcode
    exact .inl (Operand.label_of_mode (Mnemonic.mode_of_only hopcode))
  · rw [hmnemonic] at hopcode
    exact .inl (Operand.label_of_mode (Mnemonic.mode_of_only hopcode))
  -- Short branches have a label only. For the others it is the addressing mode that decides.
  have hmode := Mnemonic.mode_of_jump hjump hopcode
  unfold CheckedInstruction.aimsAnywhere
  cases hoperand : i.operand with
  | label name => exact .inl ⟨name, rfl⟩
  | direct low | extended address | indexed offset base =>
    rcases hjump with hmnemonic | hmnemonic <;> exact .inr (by rw [hmnemonic])
  | absent | pair source target =>
    rw [hoperand] at hmode
    rcases hmode with hmode | ⟨hmode, -⟩ <;> cases hmode
  | immediate value =>
    rw [hoperand] at hmode
    rcases hmode with hmode | ⟨-, hmode⟩
    · cases hmode
    · exact absurd rfl hmode

/-- Control is sent to a label, to the latest return address, or anywhere. -/
theorem source_of_execute_jump {i : CheckedInstruction} (hi : i.Sound m.program.labels)
    (h : m.execute i.mnemonic i.operand next = .ok (after, .jump target)) :
    (∃ name, m.program.labelTarget? name = some target) ∨ target ∈ m.callStack ∨
      i.aimsAnywhere = true ∨ i.writesPc = true := by
  -- A return is the one jump that does not read its target off the operand.
  by_cases hreturn : i.mnemonic = .rts
  · rw [hreturn, execute] at h
    split at h
    · rename_i address rest hstack
      cases h
      rw [hstack]
      exact .inr (.inl List.mem_cons_self)
    · cases h
  · cases hpc : i.writesPc with
    | true => exact .inr (.inr (.inr rfl))
    | false =>
      obtain ⟨htransfer, htarget⟩ := target_of_execute_jump hreturn hpc h
      rcases label_or_aimsAnywhere hi htransfer with ⟨name, hname⟩ | hany
      · rw [hname] at htarget
        exact .inl ⟨name, target_label.mp htarget⟩
      · exact .inr (.inr (.inl hany))

/-! ## One action -/

/-- The machine has the program, and its return addresses are those of calls of the program. -/
structure Linked (p : Program) (m : Machine) : Prop where
  program : m.program = p
  returns : ∀ address ∈ m.callStack, p.IsReturnAddress address

/-- At a place of the program a step does not fail. -/
theorem step_ne_error (hp : p.WellFormed) (hm : m.program = p) (hplace : p.IsPlace m.pc)
    (problem : Diagnostic) : m.step.2 ≠ .error problem := by
  intro herror
  obtain ⟨-, hnowhere, hstop, -⟩ := (step_eq_error_iff hp hm).mp herror
  rw [current?_eq_none_iff hm] at hnowhere
  obtain ⟨k, -, hk⟩ := hplace
  unfold Program.addressOf at hk
  split at hk
  · rename_i i hi
    exact hnowhere i (List.mem_of_getElem? hi) hk
  · exact hstop hk.symm

variable {i : PlacedInstruction}

namespace Linked

theorem start (p : Program) : (Machine.start p).Linked p :=
  ⟨rfl, fun _ haddress => absurd haddress List.not_mem_nil⟩

/-- An instruction adds a return address only if it is a call. -/
theorem stackAfter (h : m.Linked p) (hp : p.WellFormed) (hi : i ∈ p.lines) :
    ∀ address ∈ m.stackAfter i.toCheckedInstruction i.next, p.IsReturnAddress address := by
  unfold Machine.stackAfter
  cases hmnemonic : i.mnemonic with
  | bsr | jsr =>
    intro address haddress
    rcases List.mem_cons.mp haddress with rfl | haddress
    · exact hp.isReturnAddress_next hi (by rw [hmnemonic]; simp)
    · exact h.returns address haddress
  | rts => exact fun address haddress => h.returns address (List.mem_of_mem_tail haddress)
  | _ => exact h.returns

/-- A step keeps the return addresses. -/
theorem step (h : m.Linked p) (hp : p.WellFormed) : m.step.1.Linked p := by
  have hstepped := m.stepped
  refine ⟨hstepped.program.trans h.program, ?_⟩
  generalize m.step.1 = after at hstepped
  generalize m.step.2 = outcome at hstepped
  cases hstepped with
  | stopped | exhausted | missing | failed => exact h.returns
  | executed hhalt hcurrent hexecute =>
    rename_i i after flow
    have hstack : (after.finish i flow).callStack = m.stackAfter i.toCheckedInstruction i.next := by
      have hafter := (executed hexecute).callStack
      cases flow <;> exact hafter
    rw [hstack]
    exact h.stackAfter hp (mem_of_current? hp h.program hcurrent)

/-- Only calls and lines typed by hand put addresses on the call stack. -/
theorem perform (h : m.Linked p) (hp : p.WellFormed) {a : Action} (ha : a.isTyped = false) :
    (m.perform a).Linked p := by
  cases a with
  | step => exact h.step hp
  | runUntil limit cancel =>
    obtain ⟨last, hlast, hends⟩ := runUntil_endsWith (fun n hn => hn.step hp) h limit cancel
    show (m.runUntil limit cancel).machine.Linked p
    rw [hends.machine]
    exact hlast.step hp
  | evaluate line => cases ha
  | set r value => exact ⟨h.program, h.returns⟩
  | poke address value => exact ⟨h.program, h.returns⟩
  | reset => exact ⟨h.program, fun _ haddress => absurd haddress List.not_mem_nil⟩

/-- Whatever is done without typing keeps the return addresses. -/
theorem performAll (h : m.Linked p) (hp : p.WellFormed) {actions : List Action}
    (hactions : ∀ a ∈ actions, a.isTyped = false) : (m.performAll actions).Linked p := by
  induction actions generalizing m with
  | nil => exact h
  | cons a rest ih =>
    exact ih (h.perform hp (hactions a List.mem_cons_self)) fun b hb =>
      hactions b (List.mem_cons_of_mem a hb)

/-! ## Where the next step can fail -/

/-- An instruction that does not send control anywhere leaves the machine at a place of the program,
if it does not stop it. -/
theorem isPlace_of_executed (h : m.Linked p) (hp : p.WellFormed) {flow : Flow}
    (hcurrent : m.current? = some i)
    (hexecute : m.ready.execute i.mnemonic i.operand i.next = .ok (after, flow))
    (hkept : i.aimsAnywhere = false ∧ i.writesPc = false)
    (hrunning : (after.finish i flow).halt = none) : p.IsPlace (after.finish i flow).pc := by
  have hi := mem_of_current? hp h.program hcurrent
  cases flow with
  | next => exact hp.isPlace_next hi
  | halt reason => cases hrunning
  | jump target =>
    have hsound : i.Sound m.ready.program.labels := by
      show i.Sound m.program.labels
      rw [h.program]
      exact hp.sound i hi
    show p.IsPlace target
    -- A label and a return address are places, and the other two ways were excluded.
    rcases source_of_execute_jump hsound hexecute with ⟨name, hname⟩ | hstack | hany | hwrites
    · have hname : m.program.labelTarget? name = some target := hname
      rw [h.program] at hname
      exact hp.laid.isPlace_of_label hname
    · exact (h.returns target hstack).isPlace
    · rw [hkept.1] at hany
      cases hany
    · rw [hkept.2] at hwrites
      cases hwrites

/-- After a step the next one fails only if the instruction has sent control anywhere. -/
theorem sendsAnywhere_of_step (h : m.Linked p) (hp : p.WellFormed) {problem : Diagnostic}
    (herror : m.step.1.step.2 = .error problem) : Action.step.sendsAnywhere m = true := by
  have hlinked := h.step hp
  have hrunning := ((step_eq_error_iff hp hlinked.program).mp herror).1
  have hlost : ¬ p.IsPlace m.step.1.pc := fun hplace =>
    step_ne_error hp hlinked.program hplace problem herror
  clear herror hlinked
  have hstepped := m.stepped
  generalize m.step.1 = after at hstepped hrunning hlost
  generalize m.step.2 = outcome at hstepped
  cases hstepped with
  | stopped hhalt =>
    rw [hrunning] at hhalt
    cases hhalt
  | exhausted | missing | failed => cases hrunning
  | executed hhalt hcurrent hexecute =>
    rename_i i after flow
    have hstarting : m.starting? = some i := by
      rw [starting?, hhalt]
      exact hcurrent
    rw [Action.sendsAnywhere, hstarting, Option.any_some, Bool.or_eq_true]
    -- Had it not sent control anywhere, the machine would stand at a place, where no step fails.
    refine Decidable.byContradiction fun hneither => hlost ?_
    rw [not_or, Bool.not_eq_true, Bool.not_eq_true] at hneither
    exact h.isPlace_of_executed hp hcurrent hexecute hneither hrunning

/-- Whether a step fails depends on halt and program counter only. -/
theorem error_of_same (h : m.Linked p) (hp : p.WellFormed) {problem : Diagnostic}
    (herror : after.step.2 = .error problem) (hprogram : after.program = m.program)
    (hhalt : after.halt = m.halt) (hpc : after.pc = m.pc) : m.step.2 = .error problem := by
  have hafter : after.program = p := hprogram.trans h.program
  have hcurrent : after.current? = m.current? := by rw [current?, current?, hprogram, hpc]
  rw [step_eq_error_iff hp hafter, hhalt, hcurrent, hpc] at herror
  exact (step_eq_error_iff hp h.program).mpr herror

/-- If a step fails after an action, the action has sent control anywhere, or it has left alone a
program counter at which a step would have failed before. -/
theorem sendsAnywhere_or_leavesPc (h : m.Linked p) (hp : p.WellFormed) {a : Action}
    (htyped : a.isTyped = false) (hrun : a.isRun = false) {problem : Diagnostic}
    (herror : (m.perform a).step.2 = .error problem) :
    a.sendsAnywhere m = true ∨ a.leavesPc = true ∧ m.step.2 = .error problem := by
  cases a with
  | step => exact .inl (h.sendsAnywhere_of_step hp herror)
  | runUntil limit cancel => cases hrun
  | evaluate line => cases htyped
  | set r value =>
    by_cases hr : r = .pc
    · exact .inl (beq_iff_eq.mpr hr)
    · have hpc : (m.set r value).pc = m.pc := by
        cases r with
        | pc => exact absurd rfl hr
        | _ => rfl
      exact .inr ⟨bne_iff_ne.mpr hr, h.error_of_same hp herror rfl (if_neg hr) hpc⟩
  | poke address value => exact .inr ⟨rfl, h.error_of_same hp herror rfl rfl rfl⟩
  | reset =>
    have hreset := step_ne_error (m := m.reset) hp h.program hp.isPlace_origin problem
    exact absurd herror hreset

end Linked

/-! ## All actions -/

/-- If a step fails after single actions, one of them has sent control anywhere, and those since
then have left the program counter alone. -/
theorem exists_sendsAnywhere (hp : p.WellFormed) {actions : List Action}
    (hactions : ∀ a ∈ actions, a.isTyped = false ∧ a.isRun = false) {problem : Diagnostic}
    (herror : ((start p).performAll actions).step.2 = .error problem) :
    ∃ earlier a between, actions = earlier ++ a :: between ∧
      a.sendsAnywhere ((start p).performAll earlier) = true ∧
      ∀ b ∈ between, b.leavesPc = true := by
  induction actions using List.reverseRecOn with
  | nil => exact absurd herror (step_ne_error (m := start p) hp rfl hp.isPlace_origin problem)
  | append_singleton before a ih =>
    have hbefore : ∀ b ∈ before, b.isTyped = false ∧ b.isRun = false := fun b hb =>
      hactions b (List.mem_append_left _ hb)
    obtain ⟨htyped, hrun⟩ := hactions a (List.mem_append_right _ (List.mem_singleton_self a))
    have hlinked : ((start p).performAll before).Linked p :=
      (Linked.start p).performAll hp fun b hb => (hbefore b hb).1
    rw [performAll_append] at herror
    -- The last action is the culprit, or it left the program counter as the actions before had it.
    rcases hlinked.sendsAnywhere_or_leavesPc hp htyped hrun herror with hsends | ⟨hleaves, herror⟩
    · exact ⟨before, a, [], rfl, hsends, fun b hb => absurd hb List.not_mem_nil⟩
    · obtain ⟨earlier, culprit, between, rfl, hsends, hbetween⟩ := ih hbefore herror
      refine ⟨earlier, culprit, between ++ [a], by simp, hsends, fun b hb => ?_⟩
      rcases List.mem_append.mp hb with hb | hb
      · exact hbetween b hb
      · rw [List.mem_singleton.mp hb]
        exact hleaves

/-- A run that answers that there is no instruction ends with a step that fails for this. -/
theorem exists_error_of_runUntil {limit : Nat} {cancel : Nat → Machine → Bool}
    {problem : Diagnostic} (h : (m.runUntil limit cancel).outcome = .error problem)
    (hkind : problem.cause.kind = .badAddress) :
    ∃ n, m.runLength limit cancel = n + 1 ∧ (m.steppedTimes n).step.2 = .error problem := by
  obtain ⟨n, hlength, hends⟩ := m.runUntil_endsWith_last limit cancel
  rcases hends.outcome with hsame | ⟨-, count, hlimit⟩
  · exact ⟨n, hlength, hsame.symm.trans h⟩
  · rw [hlimit] at h
    cases h
    cases hkind

end Machine

/-- Whatever was done to a machine with an assembled program, lines typed by hand apart: every
return address is that of an instruction after a call, and the step after a return does not fail.
With every run taken apart into its steps, before a step that fails control was sent anywhere, by
an instruction or from outside, and then nothing has moved the program counter; a run fails with a
step that does. -/
theorem returns_of_assemble {source : String} {p : Program} (h : assemble source = .ok p)
    (actions : List Machine.Action) (hactions : ∀ a ∈ actions, a.isTyped = false) :
    let m := (Machine.start p).performAll actions
    let singles := (Machine.start p).singles actions
    (∀ address ∈ m.callStack, p.IsReturnAddress address) ∧
    (∀ i, m.starting? = some i → i.mnemonic = .rts → ∀ problem, m.step.1.step.2 ≠ .error problem) ∧
    (Machine.start p).performAll singles = m ∧
    (∀ before after problem, singles = before ++ .step :: after →
      ((Machine.start p).performAll before).step.2 = .error problem →
      ∃ earlier a between, before = earlier ++ a :: between ∧
        a.sendsAnywhere ((Machine.start p).performAll earlier) = true ∧
        ∀ b ∈ between, b.leavesPc = true) ∧
    ∀ limit cancel problem, (m.runUntil limit cancel).outcome = .error problem →
      problem.cause.kind = .badAddress →
      ∃ n, m.runLength limit cancel = n + 1 ∧ (m.steppedTimes n).step.2 = .error problem := by
  intro m singles
  have hp := assemble_wellFormed h
  have hlinked : m.Linked p := (Machine.Linked.start p).performAll hp hactions
  refine ⟨hlinked.returns, ?_, Machine.performAll_singles _ actions, ?_, ?_⟩
  · -- A step fails only after something that may send control anywhere, and a return is not that.
    intro i hi hmnemonic problem herror
    have hsends := hlinked.sendsAnywhere_of_step hp herror
    have haims : i.aimsAnywhere = false := by
      unfold CheckedInstruction.aimsAnywhere
      rw [hmnemonic]
    have hwrites : i.writesPc = false :=
      Machine.writesPc_of_not_takesPair (by rw [hmnemonic]; rfl)
    rw [Machine.Action.sendsAnywhere, hi, Option.any_some, haims, hwrites] at hsends
    cases hsends
  · intro before after problem hsplit herror
    refine Machine.exists_sendsAnywhere hp (fun a ha => ?_) herror
    have hmem : a ∈ singles := by
      rw [hsplit]
      exact List.mem_append_left _ ha
    rcases Machine.mem_singles hmem with rfl | ⟨hmem, hrun⟩
    · exact ⟨rfl, rfl⟩
    · exact ⟨hactions a hmem, hrun⟩
  · exact fun limit cancel problem => Machine.exists_error_of_runUntil

/-- A subroutine that returns, and then a jump to the address in a register that was never loaded.
The run fails with its fourth step. -/
theorem returns_of_assemble_indexed :
    ∃ p, assemble " BSR SUB\n JMP ,X\nSUB: RTS\n END" = .ok p ∧
      ((Machine.start p).steppedTimes 1).callStack = [0xFE02] ∧ p.IsReturnAddress 0xFE02 ∧
      (Machine.start p).runLength 10 (fun _ _ => false) = 4 ∧
      (∃ problem, ((Machine.start p).steppedTimes 3).step.2 = .error problem) ∧
      ∃ (earlier between : List Machine.Action) (a : Machine.Action),
        List.replicate 3 .step = earlier ++ a :: between ∧
        a.sendsAnywhere ((Machine.start p).performAll earlier) = true := by
  obtain ⟨p, hp, htest⟩ := Except.exists_of_any
    (x := assemble " BSR SUB\n JMP ,X\nSUB: RTS\n END")
    (q := fun p => ((Machine.start p).steppedTimes 1).callStack == [0xFE02] &&
      (Machine.start p).runLength 10 (fun _ _ => false) == 4 &&
      !((Machine.start p).steppedTimes 3).step.2.toOption.isSome) (by decide +kernel)
  simp only [Bool.and_eq_true, beq_iff_eq, Bool.not_eq_true'] at htest
  obtain ⟨⟨hstack, hlength⟩, hfails⟩ := htest
  obtain ⟨hreturns, -⟩ := returns_of_assemble hp (List.replicate 1 .step) (by decide +kernel)
  obtain ⟨-, -, -, hsends, -⟩ := returns_of_assemble hp [.runUntil 10 fun _ _ => false]
    (fun a ha => by rw [List.mem_singleton.mp ha]; rfl)
  have herror : ∃ problem, ((Machine.start p).steppedTimes 3).step.2 = .error problem := by
    cases houtcome : ((Machine.start p).steppedTimes 3).step.2 with
    | error problem => exact ⟨problem, rfl⟩
    | ok halt =>
      rw [houtcome] at hfails
      cases hfails
  obtain ⟨problem, hproblem⟩ := herror
  have hsingles : (Machine.start p).singles [.runUntil 10 fun _ _ => false] =
      List.replicate 3 .step ++ .step :: [] := by
    show List.replicate ((Machine.start p).runLength 10 fun _ _ => false) _ ++ [] = _
    rw [hlength]
    rfl
  obtain ⟨earlier, a, between, hsplit, ha, -⟩ := hsends _ _ problem hsingles hproblem
  refine ⟨p, hp, hstack, hreturns 0xFE02 ?_, hlength, ⟨problem, hproblem⟩, earlier, between,
    a, hsplit, ha⟩
  show 0xFE02 ∈ ((Machine.start p).steppedTimes 1).callStack
  rw [hstack]
  exact List.mem_cons_self

end Teach6809
