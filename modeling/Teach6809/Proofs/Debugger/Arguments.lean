import Teach6809.Proofs.Debugger.Session
import Teach6809.Proofs.Except
import Teach6809.Proofs.Text.Words

/-!
# Surplus arguments

Every command but `help` and `eval` takes a certain number of arguments (`CommandName.arity`). What
is wrong with these is told first; what comes behind them is counted in a byte. Main statement:
`surplus_of_line`, by which surplus arguments are refused unless their number is a multiple of 256,
and then the command is what it would be without them.
-/

namespace Teach6809

open Text

/-- How many arguments a command takes at most. `help` and `eval` take any. -/
def CommandName.arity : CommandName → Option Nat
  | .help | .eval => none
  | .step => some 1
  | .memory | .set => some 2
  | .run | .reset | .assemble | .registers | .program | .quit => some 0

namespace Command

variable {line rest name : List Char} {args taken surplus : List (List Char)}
  {command : CommandName} {count : Nat}

/-! ## Lines and their words -/

/-- The name of a command is the first word of its line, and the others are its arguments. -/
theorem exists_read_of_words (hline : words line = name :: args)
    (hname : CommandName.ofName? name = some command) :
    ∃ rest, words rest = args ∧
      read line = (readArguments rest command).mapError (.arguments command) := by
  obtain ⟨hfirst, hothers⟩ := words_eq_cons hline
  refine ⟨trim ((trim line).dropWhile isVisible), ?_, ?_⟩
  · rw [words_trim, hothers]
  · have hread :
        CommandName.ofName? ((trim line).takeWhile fun c => !isBlank c) = some command := by
      rw [← hname]
      exact congrArg CommandName.ofName? hfirst
    rw [read]
    simp only [hread]
    rfl

/-! ## Arguments -/

/-- A command that was read, unless there are surplus arguments. -/
def thenRefuse (expected : Nat) (surplus : List (List Char))
    (verdict : Except ArgumentProblem Command) : Except ArgumentProblem Command := do
  let command ← verdict
  refuseSurplus expected expected surplus
  return command

/-- A command without arguments refuses any. -/
theorem alone_of_surplus (command : Command) (rest : List Char) :
    alone command rest = thenRefuse 0 (words rest) (.ok command) := by
  unfold alone thenRefuse
  cases refuseSurplus 0 0 (words rest) <;> rfl

/-- Behind the count everything is surplus. -/
theorem readStep_of_surplus (first : List Char) (surplus : List (List Char)) :
    readStep (first :: surplus) = thenRefuse 1 surplus (readStep [first]) := by
  dsimp only [readStep, thenRefuse]
  cases readNumber "count" 0xFFFFFFFF first with
  | error problem => rfl
  | ok count =>
    by_cases hcount : count = 0
    · subst hcount
      rfl
    · show (if count = 0 then _ else _) = ((if count = 0 then _ else _) >>= _)
      rw [if_neg hcount, if_neg hcount]
      rfl

/-- Behind address and count everything is surplus. -/
theorem readMemory_of_surplus (first second : List Char) (surplus : List (List Char)) :
    readMemory (first :: second :: surplus) =
      thenRefuse 2 surplus (readMemory [first, second]) := by
  dsimp only [readMemory, thenRefuse]
  cases readNumber "address" 0xFFFF first with
  | error problem => rfl
  | ok address =>
    cases readNumber "count" 0xFFFF second <;> rfl

/-- Behind register and value everything is surplus. -/
theorem readSet_of_surplus (first second : List Char) (surplus : List (List Char)) :
    readSet (first :: second :: surplus) = thenRefuse 2 surplus (readSet [first, second]) := by
  dsimp only [readSet, thenRefuse]
  cases Register.ofName? (String.ofList (first.map Char.toUpper)) with
  | none => rfl
  | some register =>
    dsimp only
    cases readNumber "value" (if register.isWide then 0xFFFF else 0xFF) second <;> rfl

/-- The verdict on arguments is that on the first of them, and then that on the surplus. -/
theorem readArguments_of_surplus {shorter : List Char} (harity : command.arity = some taken.length)
    (hrest : words rest = taken ++ surplus) (hshorter : words shorter = taken) :
    readArguments rest command =
      thenRefuse taken.length surplus (readArguments shorter command) := by
  cases command with
  | help | eval => cases harity
  | run | reset | assemble | registers | program | quit =>
    obtain rfl := List.length_eq_zero_iff.mp (Option.some.inj harity).symm
    rw [List.nil_append] at hrest
    rw [readArguments, readArguments, alone_of_surplus, alone_of_surplus, hrest, hshorter]
    rfl
  | step =>
    obtain ⟨first, rfl⟩ := List.length_eq_one_iff.mp (Option.some.inj harity).symm
    rw [readArguments, readArguments, hrest, hshorter]
    exact readStep_of_surplus first surplus
  | memory =>
    obtain ⟨first, second, rfl⟩ := List.length_eq_two.mp (Option.some.inj harity).symm
    rw [readArguments, readArguments, hrest, hshorter]
    exact readMemory_of_surplus first second surplus
  | set =>
    obtain ⟨first, second, rfl⟩ := List.length_eq_two.mp (Option.some.inj harity).symm
    rw [readArguments, readArguments, hrest, hshorter]
    exact readSet_of_surplus first second surplus

/-! ## Surplus -/

/-- What is wrong with a command that has so many surplus arguments behind those it takes. -/
def surplusProblem (command : CommandName) (count surplus : Nat) : CommandProblem :=
  .arguments command (.tooMany count (min 255 (count + surplus % 256)))

/-- The line without its surplus arguments is read first. If it can be read, the number of surplus
arguments modulo 256 decides. -/
theorem read_of_surplus {shorter : List Char} (hname : CommandName.ofName? name = some command)
    (harity : command.arity = some taken.length) (hline : words line = name :: (taken ++ surplus))
    (hshorter : words shorter = name :: taken) :
    read line = (read shorter).bind fun whole =>
      if surplus.length % 256 = 0 then .ok whole
      else .error (surplusProblem command taken.length surplus.length) := by
  obtain ⟨rest, hrest, hread⟩ := exists_read_of_words hline hname
  obtain ⟨few, hfew, hreadFew⟩ := exists_read_of_words hshorter hname
  rw [hread, hreadFew, readArguments_of_surplus harity hrest hfew]
  cases readArguments few command with
  | error problem => rfl
  | ok whole =>
    dsimp only [thenRefuse, refuseSurplus]
    by_cases hwraps : surplus.length % 256 = 0
    · rw [if_pos hwraps]
      exact (if_pos hwraps).symm
    · rw [if_neg hwraps]
      exact (if_neg hwraps).symm

end Command

open Command in
/-- A line has more arguments than its command takes. If their surplus is not a multiple of 256, the
line is refused, and then it is not executed. What is wrong with the arguments the command takes is
told first, as for the line without the others; if nothing is, there are too many. But 256 surplus
arguments, or a multiple of that, are not noticed. -/
theorem surplus_of_line {line name : List Char} {args : List (List Char)} {command : CommandName}
    {count : Nat} (hline : words line = name :: args)
    (hname : CommandName.ofName? name = some command) (harity : command.arity = some count)
    (hmore : count < args.length) :
    let surplus := args.length - count
    (surplus % 256 ≠ 0 →
      (∃ problem, read line = .error problem) ∧
      ∀ s : Session, (s.accept line).simulator = s.simulator ∧
        (s.accept line).finished = s.finished) ∧
    ∀ shorter, words shorter = name :: args.take count →
      (∀ problem, read shorter = .error problem → read line = .error problem) ∧
      ∀ whole, read shorter = .ok whole →
        read line = if surplus % 256 = 0 then .ok whole
          else .error (surplusProblem command count surplus) := by
  intro surplus
  have htaken : (args.take count).length = count := List.length_take_of_le (Nat.le_of_lt hmore)
  have hsurplus : (args.drop count).length = surplus := List.length_drop
  -- The shorter line is read first, and only then what is left over is looked at.
  have hread : ∀ shorter, words shorter = name :: args.take count →
      read line = (read shorter).bind fun whole =>
        if surplus % 256 = 0 then .ok whole
        else .error (surplusProblem command count surplus) := by
    intro shorter hshorter
    have hsplit : words line = name :: (args.take count ++ args.drop count) := by
      rw [List.take_append_drop, hline]
    have hread := read_of_surplus hname (by rw [htaken, harity]) hsplit hshorter
    rwa [htaken, hsurplus] at hread
  refine ⟨fun hwraps => ?_, fun shorter hshorter => ⟨fun problem h => ?_, fun whole h => ?_⟩⟩
  · -- Such a shorter line is that of the words with spaces between them.
    have hwords : ∀ word ∈ name :: args.take count, word ≠ [] ∧ ∀ c ∈ word, isBlank c = false := by
      intro word hword
      have hmem : word ∈ words line := by
        rw [hline]
        rcases List.mem_cons.mp hword with rfl | hword
        · exact List.mem_cons_self
        · exact List.mem_cons_of_mem _ (List.mem_of_mem_take hword)
      exact mem_words hmem
    have hrefused : ∃ problem, read line = .error problem := by
      rw [hread _ (words_intercalate hwords)]
      cases read ([' '].intercalate (name :: args.take count)) with
      | error problem => exact ⟨problem, rfl⟩
      | ok whole => exact ⟨_, if_neg hwraps⟩
    obtain ⟨problem, hproblem⟩ := hrefused
    exact ⟨⟨problem, hproblem⟩, Session.accept_of_error hproblem⟩
  · rw [hread shorter hshorter, h]
    rfl
  · rw [hread shorter hshorter, h]
    rfl

open Command in
/-- Two steps, by the short name in upper case and with a tab, and two arguments too many. -/
theorem surplus_of_line_step :
    let line := "S\t2 now please".toList
    words line = ["S".toList, "2".toList, "now".toList, "please".toList] ∧
    CommandName.ofName? "S".toList = some .step ∧ CommandName.step.arity = some 1 ∧
    1 < ["2".toList, "now".toList, "please".toList].length ∧
    read "S 2".toList = .ok (.step 2) ∧
    read line = .error (.arguments .step (.tooMany 1 3)) := by
  intro line
  have hline : words line = ["S".toList, "2".toList, "now".toList, "please".toList] := by
    decide
  have hname : CommandName.ofName? "S".toList = some .step := by decide
  have hshort : read "S 2".toList = .ok (.step 2) := by decide
  obtain ⟨-, hread⟩ := surplus_of_line hline hname rfl (by decide)
  obtain ⟨-, hwhole⟩ := hread "S 2".toList (by decide)
  exact ⟨hline, hname, rfl, by decide, hshort, hwhole (.step 2) hshort⟩

open Command in
/-- `run` takes no arguments, and takes 256 of them. -/
theorem surplus_of_line_wrapped :
    let line := "run".toList ++ (List.replicate 256 " x".toList).flatten
    words line = "run".toList :: List.replicate 256 "x".toList ∧
      CommandName.ofName? "run".toList = some .run ∧ CommandName.run.arity = some 0 ∧
      read line = .ok .run := by
  decide +kernel

end Teach6809
