import LayoutLexer.CommandLine

/-!
# A machine to run the program on

A machine holds a tree of files and what has been written to standard output
and standard error.  Standard output may be a full device, which refuses every
write but an empty one, and otherwise it may have room for so many bytes only.
Standard error takes everything, and no log is asked for.
-/

namespace LayoutLexer

structure Machine where
  files : FileTree
  outputIsFull : Bool
  /-- The room of a standard output that is no full device. -/
  outputRoom : Room := .unlimited
  output : Bytes
  errors : Bytes
  deriving DecidableEq, Repr

namespace Machine

/-- What standard output has room for. -/
def roomOfOutput (machine : Machine) : Room :=
  if machine.outputIsFull then .limited 0 else machine.outputRoom

def standardOutput : Output (StateM Machine) FileFault where
  write bytes := fun machine =>
    let taken := machine.roomOfOutput.part bytes
    (if machine.roomOfOutput.fits bytes then .ok () else .error .noSpaceLeft,
      { machine with
        outputRoom := machine.outputRoom.less taken
        output := machine.output ++ taken })
  flush := fun machine => (.ok (), machine)

/-- The file at a location, written from its end on. -/
def fileOutput (location : Location) : Output (StateM Machine) FileFault where
  write bytes := fun machine =>
    let (written, files) := machine.files.append location bytes
    (written, { machine with files })
  flush := fun machine => (.ok (), machine)

/-- A machine as the host of the program. -/
def host : Host (StateM Machine) where
  readVariable _ := pure none
  installLog := pure ()
  log _ := pure ()
  readSource path := fun machine => (machine.files.read (utf8 path), machine)
  report bytes := fun machine =>
    (.ok (), { machine with errors := machine.errors ++ bytes })
  openOutput
    | none => fun machine => (.ok standardOutput, machine)
    | some path => fun machine =>
      match machine.files.create (utf8 path) with
      | .ok (location, files) => (.ok (fileOutput location), { machine with files })
      | .error fault => (.error fault, machine)

def run (machine : Machine) (program : String) (arguments : List String) :
    ExitStatus × Machine :=
  runMain host ((program :: arguments).map utf8) machine

end Machine

end LayoutLexer
