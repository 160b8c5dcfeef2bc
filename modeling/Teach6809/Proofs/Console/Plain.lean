import Teach6809.Console.Report
import Teach6809.Proofs.Console.Visible

/-!
# Plain consoles

A plain console shows no escape character, whatever it is told to show and in whatever order: every
report goes through `Console.print`, which removes the sequences of each text. What is left of a
text is described by `Shows`, which says where a sequence begins and ends and nothing of how a text
is scanned: an escape character inside a sequence does not begin another one, and a sequence without
an `m` reaches to the end. Main statement: `plain_of_calls`.
-/

namespace Teach6809

/-! ## What a text shows -/

/-- A text and what it shows. A sequence goes from an escape character to the next `m`, or to the
end if there is none. -/
inductive Shows : List Char → List Char → Prop where
  | plain {text : List Char} (htext : escape ∉ text) : Shows text text
  | sequence {front body rest seen : List Char} (hfront : escape ∉ front) (hbody : 'm' ∉ body)
      (hrest : Shows rest seen) : Shows (front ++ escape :: (body ++ 'm' :: rest)) (front ++ seen)
  | unterminated {front body : List Char} (hfront : escape ∉ front) (hbody : 'm' ∉ body) :
      Shows (front ++ escape :: body) front

variable {text seen body : List Char}

theorem skipSequence_append (hbody : 'm' ∉ body) (rest : List Char) :
    skipSequence (body ++ rest) = skipSequence rest := by
  induction body with
  | nil => rfl
  | cons c body ih =>
    rw [List.mem_cons, not_or] at hbody
    rw [List.cons_append, skipSequence_cons (Ne.symm hbody.1), ih hbody.2]

theorem decolor_append (htext : escape ∉ text) (rest : List Char) :
    decolor (text ++ rest) = text ++ decolor rest :=
  decolor_of_plain (fun _ hc hescape => htext (hescape ▸ hc)) rest

/-- A text without an escape character is visible as it is. -/
theorem decolor_of_not_mem (htext : escape ∉ text) : decolor text = text := by
  have h := decolor_append htext []
  rwa [List.append_nil, decolor_nil, List.append_nil] at h

theorem decolor_of_shows (h : Shows text seen) : decolor text = seen := by
  induction h with
  | plain htext => exact decolor_of_not_mem htext
  | sequence hfront hbody _ ih =>
    rw [decolor_append hfront, decolor_escape, skipSequence_append hbody, skipSequence_m, ih]
  | @unterminated front body hfront hbody =>
    have hskip := skipSequence_append hbody []
    rw [List.append_nil] at hskip
    rw [decolor_append hfront, decolor_escape, hskip, skipSequence_nil, List.append_nil]

/-- Every text shows something. -/
theorem exists_shows (text : List Char) : ∃ seen, Shows text seen := by
  -- On the length: what follows the first sequence is shorter.
  induction hlength : text.length using Nat.strongRecOn generalizing text with
  | ind n ih =>
    by_cases hescape : escape ∈ text
    · obtain ⟨front, tail, rfl, hfront⟩ := List.eq_append_cons_of_mem hescape
      by_cases hend : 'm' ∈ tail
      · obtain ⟨body, rest, rfl, hbody⟩ := List.eq_append_cons_of_mem hend
        have hshorter : rest.length < n := by
          simp only [List.length_append, List.length_cons] at hlength
          omega
        obtain ⟨seen, hseen⟩ := ih rest.length hshorter rest rfl
        exact ⟨front ++ seen, .sequence hfront hbody hseen⟩
      · exact ⟨front, .unterminated hfront hend⟩
    · exact ⟨text, .plain hescape⟩

/-- Removing the sequences of a text leaves exactly what it shows. -/
theorem decolor_eq_iff : decolor text = seen ↔ Shows text seen := by
  constructor
  · rintro rfl
    obtain ⟨seen, hseen⟩ := exists_shows text
    rwa [decolor_of_shows hseen]
  · exact decolor_of_shows

/-- What is visible of a text is the text with characters left out, inside a sequence or not. -/
theorem visible_sublist (text : List Char) :
    (decolor text).Sublist text ∧ (skipSequence text).Sublist text := by
  induction text with
  | nil => simp
  | cons c rest ih =>
    obtain ⟨ihdecolor, ihskip⟩ := ih
    rw [decolor, skipSequence]
    constructor
    · split
      · exact ihskip.cons c
      · exact ihdecolor.cons_cons c
    · split
      · exact ihdecolor.cons c
      · exact ihskip.cons c

/-! ## Calls -/

namespace Console

/-- What a console is told to show. -/
inductive Call where
  | text (channel : Channel) (text : String)
  | newLine (channel : Channel)
  | registers (channel : Channel) (r : RegisterFile)
  | snapshot (channel : Channel) (s : Snapshot)
  | memory (channel : Channel) (m : Memory) (base : Word) (count : Nat)
  | program (channel : Channel) (p : Program) (pc : Word)

/-- Shows what it is told. -/
def perform (c : Console) : Call → Console
  | .text channel text => c.print channel text
  | .newLine channel => c.startNewLine channel
  | .registers channel r => c.printRegisters channel r
  | .snapshot channel s => c.printSnapshot channel s
  | .memory channel m base count => c.printMemory channel m base count
  | .program channel p pc => c.printProgram channel p pc

/-- Shows one thing after another. -/
def performAll (c : Console) (calls : List Call) : Console := calls.foldl perform c

section Induction

variable {P : Console → Prop} {c : Console}
  (hprint : ∀ c channel text, P c → P (Console.print c channel text))
include hprint

theorem printAll_of_print (hc : P c) (channel : Channel) (texts : List String) :
    P (c.printAll channel texts) := by
  unfold printAll
  induction texts generalizing c with
  | nil => exact hc
  | cons text rest ih => exact ih (hprint c channel text hc)

/-- Every call only prints texts, so it keeps what each of them keeps. -/
theorem perform_of_print (hc : P c) (call : Call) : P (c.perform call) := by
  cases call with
  | text channel text => exact hprint c channel text hc
  | newLine channel =>
    show P (c.startNewLine channel)
    unfold startNewLine
    split
    · exact hc
    · exact hprint c channel "\n" hc
  | registers channel r => exact printAll_of_print hprint hc channel _
  | snapshot channel s =>
    have hregisters : P (c.printRegisters channel s.registers) :=
      printAll_of_print hprint hc channel _
    exact printAll_of_print hprint hregisters channel _
  | memory channel m base count => exact printAll_of_print hprint hc channel _
  | program channel p pc => exact printAll_of_print hprint hc channel _

end Induction

/-- From one moment to another a plain console stays plain, and nothing it shows in between has an
escape character. -/
def StaysPlain (c after : Console) : Prop :=
  after.plain = true ∧
    ∃ written, after.shown = written ++ c.shown ∧ ∀ entry ∈ written, escape ∉ entry.2.toList

variable {c after : Console}

namespace StaysPlain

theorem refl (hc : c.plain = true) : c.StaysPlain c := ⟨hc, [], rfl, fun _ => nofun⟩

theorem trans {last : Console} (h : c.StaysPlain after) (h' : after.StaysPlain last) :
    c.StaysPlain last := by
  obtain ⟨-, written, hshown, hwritten⟩ := h
  obtain ⟨hplain, later, hlater, hlast⟩ := h'
  refine ⟨hplain, later ++ written, ?_, fun entry hentry => ?_⟩
  · rw [hlater, hshown, List.append_assoc]
  · rcases List.mem_append.mp hentry with hentry | hentry
    · exact hlast entry hentry
    · exact hwritten entry hentry

end StaysPlain

@[simp] theorem plain_track (c : Console) (text : String) : (c.track text).plain = c.plain := by
  unfold track
  split <;> rfl

@[simp] theorem color_track (c : Console) (text : String) : (c.track text).color = c.color := by
  unfold track
  split <;> rfl

@[simp] theorem shown_track (c : Console) (text : String) : (c.track text).shown = c.shown := by
  unfold track
  split <;> rfl

@[simp] theorem plain_print (c : Console) (channel : Channel) (text : String) :
    (c.print channel text).plain = c.plain := by
  unfold print
  split
  · rfl
  · exact plain_track _ text

@[simp] theorem color_print (c : Console) (channel : Channel) (text : String) :
    (c.print channel text).color = c.color := by
  unfold print
  split
  · rfl
  · exact color_track _ text

/-- What a plain console writes for a text: nothing on the channel that it leaves out, on any other
what is visible of the text. -/
theorem shown_print (hc : c.plain = true) (channel : Channel) (text : String) :
    (c.print channel text).shown =
      if channel = .sometimes then c.shown
      else (channel.stream, String.ofList (decolor text.toList)) :: c.shown := by
  unfold print
  by_cases hchannel : channel = .sometimes
  · rw [if_pos ⟨hc, hchannel⟩, if_pos hchannel]
  · rw [if_neg fun h => hchannel h.2, if_neg hchannel, shown_track]
    unfold emit dress
    rw [if_pos hc]

theorem staysPlain_print (hc : c.plain = true) (channel : Channel) (text : String) :
    c.StaysPlain (c.print channel text) := by
  refine ⟨(c.plain_print channel text).trans hc, ?_⟩
  rw [shown_print hc]
  split
  · exact ⟨[], rfl, fun _ => nofun⟩
  · refine ⟨[(channel.stream, String.ofList (decolor text.toList))], rfl, fun entry hentry => ?_⟩
    rw [List.mem_singleton.mp hentry, String.toList_ofList]
    exact fun hmem => (visible_ne_escape text.toList).1 escape hmem rfl

theorem staysPlain_perform (hc : c.plain = true) (call : Call) : c.StaysPlain (c.perform call) :=
  perform_of_print (fun _ channel text h => h.trans (staysPlain_print h.1 channel text)) (.refl hc)
    call

theorem staysPlain_performAll (hc : c.plain = true) (calls : List Call) :
    c.StaysPlain (c.performAll calls) := by
  unfold performAll
  induction calls generalizing c with
  | nil => exact .refl hc
  | cons call rest ih =>
    have hfirst := staysPlain_perform hc call
    exact hfirst.trans (ih hfirst.1)

/-- Whatever a plain console is told to show, nothing it writes has an escape character. After any
calls, what it writes for a text on a channel that it does not leave out is the text without its
sequences: that is what the text shows, a sublist of the text, the whole text if there is no escape
character, and has no sequences to remove. -/
theorem plain_of_calls (hc : c.plain = true) (calls : List Call) :
    (∃ written, (c.performAll calls).shown = written ++ c.shown ∧
      ∀ entry ∈ written, escape ∉ entry.2.toList) ∧
    (∀ channel text, ((c.performAll calls).print channel text).shown =
      if channel = .sometimes then (c.performAll calls).shown
      else (channel.stream, String.ofList (decolor text.toList)) :: (c.performAll calls).shown) ∧
    ∀ text : List Char,
      (∀ seen, decolor text = seen ↔ Shows text seen) ∧ (decolor text).Sublist text ∧
      (escape ∉ text → decolor text = text) ∧ decolor (decolor text) = decolor text := by
  obtain ⟨hplain, hwritten⟩ := staysPlain_performAll hc calls
  refine ⟨hwritten, fun channel text => shown_print hplain channel text, fun text => ?_⟩
  exact ⟨fun seen => decolor_eq_iff, (visible_sublist text).1, decolor_of_not_mem,
    decolor_decolor text⟩

/-- A sequence inside a sequence and one without an end, on a console that has shown colour before
it was made plain; then registers. -/
theorem plain_of_calls_nested :
    let c : Console := { ((Console.new false true).print .always "red") with plain := true }
    let text := "a\x1b[1\x1b[0mbm\x1b[2"
    c.plain = true ∧ ((c.performAll [.registers .normal .powerOn]).print .always text).shown =
        (.standardError, "abm") :: (c.performAll [.registers .normal .powerOn]).shown ∧
      Shows text.toList "abm".toList ∧
      ∃ written, (c.performAll [.text .normal text]).shown = written ++ c.shown ∧
        ∀ entry ∈ written, escape ∉ entry.2.toList := by
  intro c text
  have hc : c.plain = true := by decide +kernel
  have hseen : decolor text.toList = "abm".toList := by decide +kernel
  obtain ⟨-, hprint, hshows⟩ := plain_of_calls hc [.registers .normal .powerOn]
  refine ⟨hc, ?_, ((hshows text.toList).1 _).mp hseen, (plain_of_calls hc _).1⟩
  rw [hprint, if_neg (by decide), hseen, String.ofList_toList]
  rfl

end Console
end Teach6809
