import LayoutLexer.Machine
import LayoutLexer.Proofs.CreatedFiles
import LayoutLexer.Proofs.HostLaws

/-!
# Runs that leave a dump

Where the source is a text and the output takes the dump, a run succeeds over any host
that serves the program: the output has the whole dump, also where the dump replaces the
source, and the diagnostics of the unknown tokens are all that is reported.  The machine
is such a host, and there it can be said of every place in the files what stands there
after the run.
-/

namespace LayoutLexer

namespace Host.Serves

variable {σ ρ : Type} {host : Host (StateM σ)} {platform : Platform σ ρ} {stored : ρ}
  {path : String} {target : Option String} {opened : Opened ρ}

end Host.Serves

namespace Machine

/-- The room of the output for a dump, standard output or a file at a path, once it is
open.  A full device has none. -/
def roomOfTarget (machine : Machine) : Option String → Except FileFault Room
  | none => .ok machine.roomOfOutput
  | some path => do
    let (location, files) ← machine.files.create (utf8 path)
    .ok (if files.node? location = some .fullDevice then .limited 0 else files.room)

/-- The output for a dump can be opened and accepts all of a content. -/
def Accepts (machine : Machine) (content : Bytes) (target : Option String) : Prop :=
  ∃ room, machine.roomOfTarget target = .ok room ∧ room.fits content = true

/-- What writing a content leaves behind on a machine.  Standard output has the content at
its end, a file has nothing but the content, and nothing else is changed.  No trace is left
by writing to a full device. -/
def HoldsDump (before after : Machine) (content : Bytes) : Option String → Prop
  | none => after.output = before.output ++ content ∧ after.files = before.files
  | some path => after.output = before.output ∧
      ∃ location files, before.files.create (utf8 path) = .ok (location, files) ∧
        if files.node? location = some .fullDevice then after.files = before.files
        else
          after.files.read (utf8 path) = .ok content ∧
          after.files.workingDirectory = before.files.workingDirectory ∧
          ∀ other, after.files.node? other =
            if other = location then some (.file content) else before.files.node? other

/-- Standard output, and the machine when some bytes are written there. -/
def openedOutput (machine : Machine) : Opened Machine where
  room := machine.roomOfOutput
  fault := .noSpaceLeft
  holding taken := { machine with
    outputRoom := machine.outputRoom.less taken
    output := machine.output ++ taken }
  isFile := false

/-- A full device, which keeps nothing. -/
def openedDevice (machine : Machine) : Opened Machine where
  room := .limited 0
  fault := .noSpaceLeft
  holding _ := machine
  isFile := false

/-- A file at a location, which has some room on the disk. -/
def openedFile (machine : Machine) (location : Location) (room : Room) : Opened Machine where
  room := room
  fault := .noSpaceLeft
  holding taken := { machine with
    files := (machine.files.put location (.file taken)).withRoom (room.less taken) }
  isFile := true

def openTarget (machine : Machine) : Option String → Except FileFault (Opened Machine)
  | none => .ok machine.openedOutput
  | some path => (machine.files.create (utf8 path)).map fun (location, files) =>
    if files.node? location = some .fullDevice then machine.openedDevice
    else machine.openedFile location files.room

/-- A machine as a platform.  What it stores is all of it but what has been reported. -/
def platform : Platform Machine Machine where
  state := fun machine reported => { machine with errors := reported }
  environment _ := none
  read machine path := machine.files.read (utf8 path)
  openTarget := openTarget

variable {machine : Machine} {path : String} {target : Option String} {opened : Opened Machine}

/-! ## Outputs of the machine -/

theorem standardOutput_hasRoom (machine : Machine) :
    standardOutput.HasRoom machine.roomOfOutput .noSpaceLeft fun taken =>
      { machine with
        outputRoom := machine.outputRoom.less taken
        output := machine.output ++ taken } where
  write_eq := fun taken bytes within => by
    have left : roomOfOutput { machine with
        outputRoom := machine.outputRoom.less taken
        output := machine.output ++ taken } = machine.roomOfOutput.less taken := by
      unfold roomOfOutput
      split <;> simp [Room.less]
    simp only [standardOutput, left, Room.fits_append within, Room.part_append within,
      Room.less_append, List.append_assoc]
  flush_eq := fun _ => rfl

theorem fileOutput_hasRoom (machine : Machine) (room : Room) {location : Location}
    (notRoot : location ≠ []) :
    (fileOutput location).HasRoom room .noSpaceLeft fun taken =>
      { machine with
        files := (machine.files.put location (.file taken)).withRoom (room.less taken) } where
  write_eq := fun taken bytes within => by
    have here : ((machine.files.put location (.file taken)).withRoom (room.less taken)).node?
        location = some (.file taken) := by
      rw [FileTree.node?_withRoom, FileTree.node?_put _ _ _ notRoot, if_pos rfl]
    have left : ((machine.files.put location (.file taken)).withRoom (room.less taken)).room =
        room.less taken := rfl
    simp only [fileOutput, FileTree.append, here, left, Room.fits_append within,
      Room.part_append within, Room.less_append, FileTree.put_withRoom,
      FileTree.withRoom_withRoom, FileTree.put_put]
  flush_eq := fun _ => rfl

theorem fileOutput_hasNoRoom {location : Location}
    (isDevice : machine.files.node? location = some .fullDevice) :
    (fileOutput location).HasRoom (.limited 0) .noSpaceLeft fun _ => machine where
  write_eq := fun taken bytes within => by
    obtain rfl : taken = [] := by simpa [Room.fits] using within
    simp [fileOutput, FileTree.append, isDevice, Room.fits]
  flush_eq := fun _ => rfl

/-- A file that can be opened is a device, or it is created where its path leads. -/
theorem openTarget_some_eq_ok (opens : machine.openTarget (some path) = .ok opened) :
    ∃ location files, machine.files.create (utf8 path) = .ok (location, files) ∧
      location ≠ [] ∧
      ((files.node? location = some .fullDevice ∧ files = machine.files ∧
        opened = machine.openedDevice) ∨
      (files.node? location ≠ some .fullDevice ∧
        files = (machine.files.put location (.file [])).withRoom files.room ∧
        opened = machine.openedFile location files.room)) := by
  rw [openTarget] at opens
  cases created : machine.files.create (utf8 path) with
  | error fault =>
      rw [created] at opens
      cases opens
  | ok result =>
      obtain ⟨location, files⟩ := result
      have notRoot := FileTree.create_ne_nil created
      rw [created] at opens
      obtain rfl := Except.ok.inj opens
      refine ⟨location, files, rfl, notRoot, ?_⟩
      obtain ⟨-, -, ⟨isDevice, rfl⟩ | ⟨-, emptied⟩⟩ := FileTree.create_eq_ok created
      · exact .inl ⟨isDevice, rfl, if_pos isDevice⟩
      · have noDevice : files.node? location ≠ some .fullDevice := by
          rw [emptied, FileTree.node?_withRoom, FileTree.node?_put _ _ _ notRoot, if_pos rfl]
          simp
        exact .inr ⟨noDevice, emptied, if_neg noDevice⟩

theorem openOutput_ok {target : Option String} {stored : Machine} {opened : Opened Machine}
    (opens : stored.openTarget target = .ok opened) (reported : Bytes) :
    ∃ output, host.openOutput target (platform.state stored reported) =
        (.ok output, platform.state (opened.holding []) reported) ∧
      output.HasRoom opened.room opened.fault fun taken =>
        platform.state (opened.holding taken) reported := by
  cases target with
  | none =>
      obtain rfl := Except.ok.inj opens
      refine ⟨standardOutput, ?_, standardOutput_hasRoom (platform.state stored reported)⟩
      simp only [host, platform, openedOutput, Room.less_nil, List.append_nil]
  | some path =>
      obtain ⟨location, files, created, notRoot, ⟨isDevice, rfl, rfl⟩ | ⟨-, emptied, rfl⟩⟩ :=
        openTarget_some_eq_ok opens
      · have hasNoRoom := @fileOutput_hasNoRoom (platform.state stored reported) location isDevice
        refine ⟨fileOutput location, ?_, hasNoRoom⟩
        simp only [host, platform, created, openedDevice]
      · refine ⟨fileOutput location, ?_,
          fileOutput_hasRoom (platform.state stored reported) files.room notRoot⟩
        simp only [host, platform, created, openedFile, Room.less_nil, ← emptied]

theorem openOutput_error {target : Option String} {stored : Machine} {fault : FileFault}
    (unopened : stored.openTarget target = .error fault) (reported : Bytes) :
    host.openOutput target (platform.state stored reported) =
      (.error fault, platform.state stored reported) := by
  cases target with
  | none => cases unopened
  | some path =>
      cases created : stored.files.create (utf8 path) with
      | error other =>
          obtain rfl : other = fault := by
            rw [openTarget, created] at unopened
            exact Except.error.inj unopened
          simp only [host, platform, created]
      | ok result =>
          rw [openTarget, created] at unopened
          cases unopened

theorem host_serves : host.Serves platform where
  readVariable_eq _ _ _ := rfl
  installLog_eq stored reported := ⟨[], by rw [List.append_nil]; rfl⟩
  log_eq record stored reported := ⟨[], by rw [List.append_nil]; rfl⟩
  readSource_eq _ _ _ := rfl
  report_eq _ _ _ := rfl
  openOutput_error _ _ reported _ unopened := openOutput_error unopened reported
  openOutput_ok _ _ reported _ opens := openOutput_ok opens reported
  read_holding path stored opened content opens isFile := by
    obtain ⟨location, files, created, -, ⟨-, -, rfl⟩ | ⟨-, -, rfl⟩⟩ := openTarget_some_eq_ok opens
    · cases isFile
    · change ((stored.files.put location (.file content)).withRoom _).read _ = _
      rw [FileTree.read_withRoom]
      exact FileTree.read_put created content

/-! ## Whole runs of the machine -/

theorem roomOfTarget_eq (machine : Machine) (target : Option String) :
    machine.roomOfTarget target = (machine.openTarget target).map Opened.room := by
  cases target with
  | none => rfl
  | some path =>
      rw [roomOfTarget, openTarget]
      rcases machine.files.create (utf8 path) with fault | ⟨location, files⟩
      · rfl
      · change Except.ok (if _ then _ else _) = Except.ok (Opened.room (if _ then _ else _))
        split <;> rfl

/-- What an output takes is found there, and nothing else has changed. -/
theorem holdsDump_holding (opens : machine.openTarget target = .ok opened)
    (content reported : Bytes) :
    machine.HoldsDump (platform.state (opened.holding content) reported) content target := by
  cases target with
  | none =>
      obtain rfl := Except.ok.inj opens
      exact ⟨rfl, rfl⟩
  | some path =>
      obtain ⟨location, files, created, notRoot, ⟨isDevice, rfl, rfl⟩ | ⟨noDevice, -, rfl⟩⟩ :=
        openTarget_some_eq_ok opens
      · refine ⟨rfl, location, _, created, ?_⟩
        rw [if_pos isDevice]
        rfl
      · refine ⟨rfl, location, files, created, ?_⟩
        rw [if_neg noDevice]
        refine ⟨host_serves.read_holding path machine _ content opens rfl, rfl, fun other => ?_⟩
        exact FileTree.node?_put _ _ _ notRoot

/-- A run of the machine reports on a standard error without a log. -/
theorem run_of_ends {program : String} {arguments : List String} {status : ExitStatus}
    {after : Machine} {texts : List Bytes}
    (ends : platform.Ends (runMain host ((program :: arguments).map utf8)) machine status after
      texts) :
    machine.run program arguments =
      (status, platform.state after (machine.errors ++ texts.flatten)) :=
  ends.eq_flatten rfl machine.errors

end Machine

end LayoutLexer
