import LayoutLexer.CommandLine

/-!
# The executable

The program on the system that the executable runs on.
-/

namespace LayoutLexer

/-- The fault with an error number.  Some calls of the system give the negated
number, as a 32-bit word. -/
def FileFault.ofNumber (number : UInt32) (wording : String) : FileFault :=
  let positive := if number < 0x80000000 then number.toNat else (0 - number).toNat
  [notFound, notADirectory, isADirectory, noSpaceLeft, nameTooLong].find?
      (·.number? = some positive)
    |>.getD (.other (some positive) wording)

/-- The fault behind an error of the system. -/
def FileFault.ofError : IO.Error → FileFault
  | .alreadyExists _ number wording
  | .noFileOrDirectory _ number wording
  | .invalidArgument _ number wording
  | .permissionDenied _ number wording
  | .resourceExhausted _ number wording
  | .inappropriateType _ number wording
  | .noSuchThing _ number wording
  | .interrupted _ number wording
  | .otherError number wording
  | .resourceBusy number wording
  | .resourceVanished number wording
  | .unsupportedOperation number wording
  | .hardwareFault number wording
  | .unsatisfiedConstraints number wording
  | .illegalOperation number wording
  | .protocolError number wording
  | .timeExpired number wording => .ofNumber number wording
  | .unexpectedEof => .other none "unexpected end of file"
  | .userError wording => .other none wording

/-- An action with the fault of the system error that it may end in. -/
def withFault {α : Type} (action : IO α) : IO (Except FileFault α) := do
  try
    return .ok (← action)
  catch error =>
    return .error (.ofError error)

/-- A stream of the system as an output. -/
def streamOutput (stream : IO.FS.Stream) : Output IO FileFault where
  write bytes := withFault (stream.write bytes.toByteArray)
  flush := withFault stream.flush

/-- The system that the executable runs on.  No log is kept there. -/
def systemHost : Host IO where
  readVariable name := IO.getEnv name
  installLog := pure ()
  log _ := pure ()
  readSource path := withFault do
    let content ← IO.FS.readBinFile path
    return content.data.toList
  report bytes := withFault do
    (← IO.getStderr).write bytes.toByteArray
  openOutput
    | none => do return .ok (streamOutput (← IO.getStdout))
    | some path => withFault do
      let handle ← IO.FS.Handle.mk path .write
      return streamOutput (.ofHandle handle)

end LayoutLexer

open LayoutLexer in
def main (arguments : List String) : IO UInt32 := do
  let program ← IO.appPath
  let status ← runMain systemHost ((program.toString :: arguments).map utf8)
  return status.code.toUInt32
