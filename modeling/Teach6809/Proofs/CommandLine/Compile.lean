import Teach6809.CommandLine.Execution
import Teach6809.Proofs.Except
import Teach6809.Proofs.Program.Image
import Teach6809.Proofs.RegisterFile
import Teach6809.Proofs.Simulator.Consistent
import Teach6809.Proofs.Text.Bytes

/-!
# What a compilation leaves behind

A file assembles (`Directory.Assembles`) or it does not, and every request that needs a program
goes by this alone: it is refused with the files as they were, or it goes on with that program. A
compilation that goes on changes one file (`Directory.Wrote`), which becomes the image of the
program (`Program.IsImage`). A request that runs the program ends as the machine does
(`Host.Ran`), one that debugs it is a session (`Host.Debugged`). Main statement: `image_of_compile`.
-/

namespace Teach6809

/-! ## Files -/

namespace Directory

/-- A file that can be read as text, and the program its text assembles to. -/
def Assembles (d : Directory) (name : String) (p : Program) : Prop :=
  ∃ bytes source, d.read? name = some bytes ∧ String.fromUTF8? bytes = some source ∧
    assemble source = .ok p

/-- A file can be created or replaced, whatever it is to hold. -/
def CanWrite (d : Directory) (path : String) : Prop :=
  ∀ contents, ∃ after, d.write? path contents = some after

/-- One file has new contents. Everything else is as it was. -/
structure Wrote (d after : Directory) (path : String) (contents : ByteArray) : Prop where
  written : after.read? path = some contents
  others : ∀ other, Path.components other ≠ Path.components path →
    after.read? other = d.read? other
  folders : after.folders = d.folders

variable {d after : Directory} {name path : String} {contents : ByteArray} {p : Program}

theorem source_eq_ok {source : String} :
    d.source name = .ok source ↔
      ∃ bytes, d.read? name = some bytes ∧ String.fromUTF8? bytes = some source := by
  rw [Directory.source]
  cases d.read? name with
  | none => simp
  | some bytes => cases htext : String.fromUTF8? bytes <;> simp [htext]

/-- A program is found exactly if the file assembles to it. -/
theorem program_eq_ok {draw : Drawing} : d.program draw name = .ok p ↔ d.Assembles name p := by
  unfold program
  cases hsource : d.source name with
  | error reason =>
    simp only [reduceCtorEq, false_iff]
    rintro ⟨bytes, source, hread, htext, -⟩
    rw [source_eq_ok.mpr ⟨bytes, hread, htext⟩] at hsource
    cases hsource
  | ok source =>
    obtain ⟨bytes, hread, htext⟩ := source_eq_ok.mp hsource
    simp only [Except.mapError_eq_ok]
    constructor
    · exact fun h => ⟨bytes, source, hread, htext, h⟩
    · rintro ⟨bytes', source', hread', htext', h⟩
      rw [hread] at hread'
      cases hread'
      rw [htext] at htext'
      cases htext'
      exact h

theorem Assembles.exists_source (h : d.Assembles name p) : ∃ source, assemble source = .ok p := by
  obtain ⟨bytes, source, -, -, hassemble⟩ := h
  exact ⟨source, hassemble⟩

/-- Writing replaces the file at the path and no other. -/
theorem wrote_of_write? (h : d.write? path contents = some after) :
    d.Wrote after path contents := by
  simp only [write?, Option.ite_none_left_eq_some, Bool.or_eq_true, not_or] at h
  obtain ⟨⟨⟨⟨hfile, hfits⟩, -⟩, -⟩, h⟩ := h
  cases h
  constructor
  · -- The files of this name are gone, so the search comes to the new one at the end.
    have hgone : ((d.files.filter fun file =>
        !(Path.components file.1 == Path.components path)).find? fun file =>
          Path.components file.1 == Path.components path) = none := by
      rw [List.find?_eq_none]
      intro file hfile
      simpa using (List.mem_filter.mp hfile).2
    unfold read?
    rw [if_neg (by simpa [hfile] using hfits), List.find?_append, hgone]
    simp
  · intro other hother
    -- A search for another name passes over what was left out and what was added.
    have hsame : ((d.files.filter fun file =>
        !(Path.components file.1 == Path.components path)).find? fun file =>
          Path.components file.1 == Path.components other) =
        d.files.find? fun file => Path.components file.1 == Path.components other := by
      rw [List.find?_filter]
      congr 1
      funext file
      by_cases hname : Path.components file.1 = Path.components other
      · simp [hname, hother]
      · simp [hname]
    unfold read?
    rw [List.find?_append, hsame]
    simp [Ne.symm hother]
  · rfl

end Directory

/-! ## Images -/

namespace Program

/-- The memory that an image file describes: its first two bytes, the high one first, say from
where on a memory of zeros is loaded with the rest. -/
def loadImage? : List Byte → Option Memory
  | high :: low :: image => some (Memory.empty.load (Word.ofBytes high low).toNat image)
  | _ => none

/-- A file is the image of a program: the origin, then the bytes of all instructions up to the end
of the program. Loaded again it is the store of the machine, which holds the bytes of every
instruction at its address and zeros below and above. -/
structure IsImage (p : Program) (file : ByteArray) : Prop where
  bytes : file.toList = 0xFE :: 0x00 :: p.image
  size : file.size = 2 + (p.stop - origin.toNat)
  size_le : file.size ≤ 514
  reloads : loadImage? file.toList = some (Machine.start p).program.store
  holds : ∀ i ∈ p.lines, ∀ k value, i.bytes[k]? = some value →
    p.store.read (i.address + UInt16.ofNat k) = value
  blank : ∀ address : Word, address.toNat < origin.toNat ∨ p.stop ≤ address.toNat →
    p.store.read address = 0

/-- Outside of a program its store is blank. -/
theorem WellFormed.read_store_outside {p : Program} (hp : p.WellFormed) {address : Word}
    (h : address.toNat < origin.toNat ∨ p.stop ≤ address.toNat) : p.store.read address = 0 := by
  have hlength := hp.length_image
  unfold store
  rw [Memory.read_load]
  split
  · rw [List.getElem?_eq_none (by omega)]
    rfl
  · rfl

/-- The file that is written for a well-formed program is its image. -/
theorem WellFormed.isImage_imageFile {p : Program} (hp : p.WellFormed) :
    p.IsImage p.imageFile := by
  have hfile : p.imageFile = (Word.bytes origin ++ p.image).toByteArray := Bytes.mk_toArray _
  have hlist : p.imageFile.toList = Word.bytes origin ++ p.image := by
    rw [hfile, Bytes.toList_toByteArray]
  have hsize : p.imageFile.size = 2 + p.image.length := by
    rw [hfile, List.size_toByteArray, List.length_append]
    rfl
  have hlength := hp.length_image
  have hfits := hp.image_fits
  have horigin : origin.toNat = 0xFE00 := rfl
  have htop : Memory.size = 0x10000 := rfl
  refine ⟨hlist, by omega, by omega, ?_, fun i hi k value => hp.read_store hi, ?_⟩
  · have hbase : (Word.ofBytes (Word.high origin) (Word.low origin)).toNat = origin.toNat := by
      rw [Word.ofBytes_high_low]
    rw [hlist]
    exact congrArg (fun base => some (Memory.empty.load base p.image)) hbase
  · exact fun address => hp.read_store_outside

end Program

/-! ## Requests -/

/-- A request failed and left every file as it was. -/
def Host.Refuses (h : Host) (outcome : Outcome) : Prop :=
  outcome.exit ≠ 0 ∧ outcome.directory = h.directory

/-- What a request that goes on with a program has shown before it starts. -/
def Host.opening (h : Host) (name : String) (plain : Bool) (doing : String) : Console :=
  ((h.console plain).announceFile "Assembling" name).announce .green doing "assembled program"

/-- The run of a program from its start, with the step limit of the settings. -/
def Host.execution (h : Host) (p : Program) : Run := (Machine.start p).run h.settings.maxSteps

/-- A request ran a program and ended as the machine did: with the registers it had in the end and
why it stopped, or with the diagnostic of the run as an error. -/
structure Host.Ran (h : Host) (name : String) (plain : Bool) (p : Program) (outcome : Outcome) :
    Prop where
  directory : outcome.directory = h.directory
  exit : outcome.exit = 0 ↔ ∃ halt, (h.execution p).outcome = .ok halt
  finished : ∀ halt, (h.execution p).outcome = .ok halt →
    ∃ view : Snapshot, view.registers = (h.execution p).machine.registers ∧
      view.writes = (h.execution p).writes ∧
      let traced := (h.opening name plain "Running").printTrace h.settings (h.execution p).started
      outcome.console =
        (announceHalt (traced.printSnapshot .normal view) halt).announceFile "Completed" name
  failed : ∀ problem, (h.execution p).outcome = .error problem →
    ∃ source, h.directory.source name = .ok source ∧
      let traced := (h.opening name plain "Running").printTrace h.settings (h.execution p).started
      outcome = h.refuse traced (h.draw source problem)

/-- A request let a session take commands, and that is all it did. -/
structure Host.Debugged (h : Host) (name : String) (plain : Bool) (simulator : Simulator)
    (commands : List (List Char)) (outcome : Outcome) : Prop where
  directory : outcome.directory = h.directory
  exit : outcome.exit = 0
  console :
    let opened := Session.startWith h.draw h.settings (h.opening name plain "Debugging") simulator
      true
    outcome.console = (opened.play commands).console.announceFile "Completed" name

namespace Host

variable {h : Host} {name : String} {plain : Bool} {p : Program}

theorem refuses_refuse (console : Console) (reason : String) :
    h.Refuses (h.refuse console reason) :=
  ⟨Nat.one_ne_zero, rfl⟩

/-- A file that does not assemble gives a reason instead of a program. -/
theorem program_eq_error (hnone : ∀ p, ¬ h.directory.Assembles name p) :
    ∃ reason, h.directory.program h.draw name = .error reason := by
  cases hprogram : h.directory.program h.draw name with
  | error reason => exact ⟨reason, rfl⟩
  | ok p => exact absurd (Directory.program_eq_ok.mp hprogram) (hnone p)

theorem check_of_assembles (hp : h.directory.Assembles name p) :
    (h.check name).exit = 0 ∧ (h.check name).directory = h.directory := by
  unfold check
  rw [Directory.program_eq_ok.mpr hp]
  exact ⟨rfl, rfl⟩

theorem refuses_check (hnone : ∀ p, ¬ h.directory.Assembles name p) :
    h.Refuses (h.check name) := by
  obtain ⟨reason, hreason⟩ := program_eq_error hnone
  unfold check
  rw [hreason]
  exact refuses_refuse _ _

theorem compile_of_assembles (hp : h.directory.Assembles name p) {destination : Option String}
    (hwrite : h.directory.CanWrite (destination.getD (Path.withExtension name "bin"))) :
    (h.compile name destination).exit = 0 ∧
      h.directory.Wrote (h.compile name destination).directory
        (destination.getD (Path.withExtension name "bin")) p.imageFile := by
  obtain ⟨after, hafter⟩ := hwrite p.imageFile
  unfold compile
  rw [Directory.program_eq_ok.mpr hp]
  simp only [hafter]
  exact ⟨trivial, Directory.wrote_of_write? hafter⟩

theorem refuses_compile (hnone : ∀ p, ¬ h.directory.Assembles name p)
    (destination : Option String) : h.Refuses (h.compile name destination) := by
  obtain ⟨reason, hreason⟩ := program_eq_error hnone
  unfold compile
  rw [hreason]
  exact refuses_refuse _ _

/-- The simulator of a request that runs a file, which is about to start on its program. -/
def assembled (h : Host) (source : String) (p : Program) : Simulator where
  source
  machine := some (.start p)
  status := .ready
  maxSteps := h.settings.maxSteps
  observers := 0

/-- A request that runs a file gets the simulator of its program. -/
theorem prepare_of_assembles (hp : h.directory.Assembles name p)
    (hname : Path.extension? name = some programExtension) (plain : Bool) :
    ∃ source, h.directory.source name = .ok source ∧
      h.prepare name plain =
        .ok ((h.console plain).announceFile "Assembling" name, h.assembled source p) := by
  obtain ⟨bytes, source, hread, htext, hassemble⟩ := hp
  have hsource := Directory.source_eq_ok.mpr ⟨bytes, hread, htext⟩
  have hloaded : ((Simulator.new h.settings).loadSource source).assemble =
      _ := Simulator.assemble_of_ok rfl hassemble
  refine ⟨source, hsource, ?_⟩
  simp only [prepare, hname, hsource, hloaded]
  rfl

/-- The run of the simulator is that of its machine. -/
theorem run_assembled (h : Host) (source : String) (p : Program) :
    (h.assembled source p).run =
      (h.assembled source p).settle (h.execution p).machine (h.execution p).outcome
        (h.execution p).writes (h.execution p).started :=
  Simulator.runUntil_of_machine rfl (show Status.ready ≠ .halted by decide) fun _ => false

/-- A file whose run fails is refused with the diagnostic of the run. -/
theorem run_of_error {source : String} {problem : Diagnostic}
    (hprepare : h.prepare name plain =
      .ok ((h.console plain).announceFile "Assembling" name, h.assembled source p))
    (houtcome : (h.execution p).outcome = .error problem) :
    h.run name plain =
      h.refuse ((h.opening name plain "Running").printTrace h.settings (h.execution p).started)
        (h.draw source problem) := by
  unfold run
  rw [hprepare]
  dsimp only
  rw [run_assembled, houtcome]
  rfl

/-- A file whose run comes to its end is shown with the registers and the halt of the run. -/
theorem run_of_ok {source : String} {halt : Option Halt}
    (hprepare : h.prepare name plain =
      .ok ((h.console plain).announceFile "Assembling" name, h.assembled source p))
    (houtcome : (h.execution p).outcome = .ok halt) :
    ∃ view : Snapshot, view.registers = (h.execution p).machine.registers ∧
      view.writes = (h.execution p).writes ∧
      h.run name plain =
        let traced :=
          (h.opening name plain "Running").printTrace h.settings (h.execution p).started
        h.exit
          ((announceHalt (traced.printSnapshot .normal view) halt).announceFile "Completed" name)
          0 := by
  -- The machine has stopped for the reason that the run answers.
  obtain ⟨last, -, hends⟩ : ∃ last, True ∧ (h.execution p).EndsWith last :=
    Machine.runUntil_endsWith (fun _ _ => trivial) trivial _ _
  have hhalt : (h.execution p).machine.halt = halt := hends.halt houtcome
  unfold run
  rw [hprepare]
  dsimp only
  rw [run_assembled, houtcome, ← hhalt]
  exact ⟨_, rfl, rfl, rfl⟩

/-- Running a file is running the machine of its program. -/
theorem ran_run (hp : h.directory.Assembles name p)
    (hname : Path.extension? name = some programExtension) (plain : Bool) :
    h.Ran name plain p (h.run name plain) := by
  obtain ⟨source, hsource, hprepare⟩ := prepare_of_assembles hp hname plain
  cases houtcome : (h.execution p).outcome with
  | error problem =>
    have hrun := run_of_error hprepare houtcome
    constructor
    · rw [hrun]
      rfl
    · simp [hrun, houtcome, refuse, exit]
    · intro halt hok
      simp [houtcome] at hok
    · intro other hother
      rw [houtcome] at hother
      cases hother
      exact ⟨source, hsource, hrun⟩
  | ok halt =>
    obtain ⟨view, hregisters, hwrites, hrun⟩ := run_of_ok hprepare houtcome
    constructor
    · rw [hrun]
      rfl
    · simp [hrun, houtcome, exit]
    · intro other hother
      rw [houtcome] at hother
      cases hother
      exact ⟨view, hregisters, hwrites, by rw [hrun]; rfl⟩
    · intro problem herror
      simp [houtcome] at herror

/-- Debugging a file is a session on the simulator of its program. -/
theorem debugged_debug {simulator : Simulator}
    (hprepare : h.prepare name plain =
      .ok ((h.console plain).announceFile "Assembling" name, simulator))
    (commands : List (List Char)) :
    h.Debugged name plain simulator commands (h.debug name plain commands) := by
  have hopened : h.openSession name plain =
      .ok (Session.startWith h.draw h.settings (h.opening name plain "Debugging") simulator
        true) := by
    rw [openSession, hprepare]
    rfl
  unfold debug
  rw [hopened]
  exact ⟨rfl, rfl, rfl⟩

theorem refuses_prepare (hnone : ∀ p, ¬ h.directory.Assembles name p)
    (hname : Path.extension? name = some programExtension) (plain : Bool) :
    ∃ refusal, h.prepare name plain = .error refusal ∧ h.Refuses refusal := by
  cases hsource : h.directory.source name with
  | error reason =>
    simp only [prepare, hname, hsource]
    exact ⟨_, rfl, refuses_refuse _ _⟩
  | ok source =>
    cases hassemble : assemble source with
    | error problem =>
      have hloaded : ((Simulator.new h.settings).loadSource source).assemble = _ :=
        Simulator.assemble_of_error rfl hassemble
      simp only [prepare, hname, hsource, hloaded]
      exact ⟨_, rfl, refuses_refuse _ _⟩
    | ok p =>
      obtain ⟨bytes, hread, htext⟩ := Directory.source_eq_ok.mp hsource
      exact absurd ⟨bytes, source, hread, htext, hassemble⟩ (hnone p)

/-- A file of another kind is not even read. -/
theorem refuses_prepare_of_extension (hname : Path.extension? name ≠ some programExtension)
    (plain : Bool) : ∃ refusal, h.prepare name plain = .error refusal ∧ h.Refuses refusal := by
  unfold prepare
  cases hextension : Path.extension? name with
  | none => exact ⟨_, rfl, refuses_refuse _ _⟩
  | some extension =>
    have hother : extension ≠ programExtension := fun heq => hname (by rw [hextension, heq])
    simp only [if_pos hother]
    exact ⟨_, rfl, refuses_refuse _ _⟩

/-- The commands of a request to debug. -/
def commandsOf (input : ByteArray) (command : Option String) : List (List Char) :=
  command.elim (Script.ofInput input) fun text => Script.ofArgument text.toList

theorem carryOut_debug (h : Host) (input : ByteArray) (name : String) (command : Option String)
    (plain : Bool) :
    h.carryOut input (.debug name command plain) =
      h.debug name plain (commandsOf input command) := by
  cases command <;> rfl

/-- A program that is not prepared is neither run nor debugged. -/
theorem carryOut_of_refusal {refusal : Outcome} (h : Host)
    (hprepare : h.prepare name plain = .error refusal) (input : ByteArray) :
    h.carryOut input (.run name plain) = refusal ∧
      ∀ command, h.carryOut input (.debug name command plain) = refusal := by
  refine ⟨?_, fun command => ?_⟩
  · show h.run name plain = refusal
    rw [run, hprepare]
  · rw [carryOut_debug, debug, openSession, hprepare]
    rfl

/-- A compilation is refused, with every file as it was, or it writes one file, which becomes the
image of the program. It goes on with exactly the files that pass the check, and so does a request
that runs or debugs a program file: there the machine starts on the program of the image, and the
request ends as the machine does, or with the session. A file of another kind is refused. -/
theorem image_of_compile (h : Host) (input : ByteArray) (name : String)
    (destination : Option String) :
    ((∀ p, ¬ h.directory.Assembles name p) →
      h.Refuses (h.carryOut input (.compile name destination))) ∧
    (∀ p, h.directory.Assembles name p →
      h.directory.CanWrite (destination.getD (Path.withExtension name "bin")) →
      (h.carryOut input (.compile name destination)).exit = 0 ∧
        ∃ file, p.IsImage file ∧
          h.directory.Wrote (h.carryOut input (.compile name destination)).directory
            (destination.getD (Path.withExtension name "bin")) file) ∧
    (((h.carryOut input (.check name)).exit = 0 ↔ ∃ p, h.directory.Assembles name p) ∧
      (h.carryOut input (.check name)).directory = h.directory) ∧
    ∀ plain,
      (Path.extension? name = some "asmb" →
        (∀ p, h.directory.Assembles name p →
          h.Ran name plain p (h.carryOut input (.run name plain)) ∧
          ∃ console simulator, h.prepare name plain = .ok (console, simulator) ∧
            simulator.machine = some (.start p) ∧ simulator.status = .ready ∧
            simulator.maxSteps = h.settings.maxSteps ∧
            ∀ command, h.Debugged name plain simulator (commandsOf input command)
              (h.carryOut input (.debug name command plain))) ∧
        ((∀ p, ¬ h.directory.Assembles name p) →
          ∃ refusal, h.prepare name plain = .error refusal ∧ h.Refuses refusal ∧
            h.carryOut input (.run name plain) = refusal ∧
            ∀ command, h.carryOut input (.debug name command plain) = refusal)) ∧
      (Path.extension? name ≠ some "asmb" →
        h.Refuses (h.carryOut input (.run name plain)) ∧
          ∀ command, h.Refuses (h.carryOut input (.debug name command plain))) := by
  refine ⟨fun hnone => refuses_compile hnone destination, ?_, ?_, fun plain =>
    ⟨fun hname => ⟨?_, ?_⟩, fun hname => ?_⟩⟩
  · intro p hp hwrite
    obtain ⟨source, hassemble⟩ := hp.exists_source
    obtain ⟨hexit, hwrote⟩ := compile_of_assembles hp hwrite
    exact ⟨hexit, p.imageFile, (assemble_wellFormed hassemble).isImage_imageFile, hwrote⟩
  · show ((h.check name).exit = 0 ↔ _) ∧ (h.check name).directory = _
    by_cases hsome : ∃ p, h.directory.Assembles name p
    · obtain ⟨p, hp⟩ := hsome
      obtain ⟨hexit, hdirectory⟩ := check_of_assembles hp
      exact ⟨⟨fun _ => ⟨p, hp⟩, fun _ => hexit⟩, hdirectory⟩
    · obtain ⟨hexit, hdirectory⟩ := refuses_check (not_exists.mp hsome)
      exact ⟨⟨fun hzero => absurd hzero hexit, fun hp => absurd hp hsome⟩, hdirectory⟩
  · intro p hp
    obtain ⟨source, -, hprepare⟩ := prepare_of_assembles hp hname plain
    refine ⟨ran_run hp hname plain, _, _, hprepare, rfl, rfl, rfl, fun command => ?_⟩
    rw [carryOut_debug]
    exact debugged_debug hprepare _
  · intro hnone
    obtain ⟨refusal, hprepare, hrefuses⟩ := refuses_prepare hnone hname plain
    exact ⟨refusal, hprepare, hrefuses, carryOut_of_refusal h hprepare input⟩
  · obtain ⟨refusal, hprepare, hrefuses⟩ := refuses_prepare_of_extension (h := h) hname plain
    obtain ⟨hrun, hdebug⟩ := carryOut_of_refusal h hprepare input
    exact ⟨hrun ▸ hrefuses, fun command => hdebug command ▸ hrefuses⟩

/-- One file assembles: it is compiled to the default destination, run, which goes well, and
debugged. The other has no `END`: it is refused even before the first would be overwritten, and when
it is to be run. -/
theorem image_of_compile_default :
    ∃ (h : Host) (p : Program),
      h.directory.files = [("a.asmb", "LDA #$2A\nEND".toUTF8), ("b.asmb", "LDA #$2A".toUTF8)] ∧
      h.directory.Assembles "a.asmb" p ∧ h.directory.CanWrite "a.bin" ∧
      (h.carryOut .empty (.compile "a.asmb" none)).exit = 0 ∧
      (∃ file, file.toList = [0xFE, 0x00, 0x86, 0x2A, 0x3F] ∧
        h.directory.Wrote (h.carryOut .empty (.compile "a.asmb" none)).directory "a.bin" file) ∧
      (∃ console simulator, h.prepare "a.asmb" true = .ok (console, simulator) ∧
        simulator.machine = some (.start p)) ∧
      (h.carryOut .empty (.run "a.asmb" true)).exit = 0 ∧
      (h.carryOut .empty (.run "a.asmb" true)).directory = h.directory ∧
      (h.carryOut .empty (.debug "a.asmb" (some "step; quit") true)).exit = 0 ∧
      h.Refuses (h.carryOut .empty (.compile "b.asmb" (some "a.asmb"))) ∧
      h.Refuses (h.carryOut .empty (.run "b.asmb" true)) := by
  obtain ⟨p, hassemble, hp⟩ := Except.exists_of_any (x := assemble "LDA #$2A\nEND")
    (q := fun p => p.image == [0x86, 0x2A, 0x3F] &&
      ((Machine.start p).run Settings.default.maxSteps).outcome.toOption.isSome)
    (by decide +kernel)
  obtain ⟨himage, hends⟩ := Bool.and_eq_true_iff.mp hp
  have himage : p.image = [0x86, 0x2A, 0x3F] := by simpa using himage
  let h : Host :=
    { settings := .default, color := false
      directory :=
        ⟨[("a.asmb", "LDA #$2A\nEND".toUTF8), ("b.asmb", "LDA #$2A".toUTF8)], []⟩ }
  have hp : h.directory.Assembles "a.asmb" p :=
    ⟨_, _, by rfl, Text.fromUTF8?_toUTF8 _, hassemble⟩
  have hwrite : h.directory.CanWrite "a.bin" := fun contents => ⟨_, by rfl⟩
  have hnone : ∀ p, ¬ h.directory.Assembles "b.asmb" p := by
    rintro p ⟨bytes, source, hread, htext, hassemble⟩
    have hbytes : h.directory.read? "b.asmb" = some "LDA #$2A".toUTF8 := by rfl
    rw [hbytes] at hread
    cases hread
    rw [Text.fromUTF8?_toUTF8] at htext
    cases htext
    have hfails : (assemble "LDA #$2A").toOption = none := by decide +kernel
    rw [hassemble] at hfails
    cases hfails
  have hgoes : ∃ halt, (h.execution p).outcome = .ok halt := by
    obtain ⟨halt, hhalt⟩ := Option.isSome_iff_exists.mp hends
    exact ⟨halt, Except.toOption_eq_some.mp hhalt⟩
  obtain ⟨-, hcompile, -, hstarts⟩ := image_of_compile h .empty "a.asmb" none
  obtain ⟨hexit, file, hfile, hwrote⟩ := hcompile p hp hwrite
  obtain ⟨hran, console, simulator, hprepare, hmachine, -, -, hdebugged⟩ :=
    ((hstarts true).1 (by rfl)).1 p hp
  obtain ⟨hrefused, -, -, hrefusedRun⟩ := image_of_compile h .empty "b.asmb" (some "a.asmb")
  obtain ⟨refusal, -, hrefuses, hrefusal, -⟩ := ((hrefusedRun true).1 (by rfl)).2 hnone
  refine ⟨h, p, rfl, hp, hwrite, hexit, ⟨file, by rw [hfile.bytes, himage], hwrote⟩,
    ⟨console, simulator, hprepare, hmachine⟩, hran.exit.mpr hgoes, hran.directory,
    (hdebugged (some "step; quit")).exit, hrefused hnone, ?_⟩
  rw [hrefusal]
  exact hrefuses

end Host
end Teach6809
