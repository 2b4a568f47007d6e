import LayoutLexer.Buffer
import LayoutLexer.Diagnostic
import LayoutLexer.Event
import LayoutLexer.Failure
import LayoutLexer.FileTree

/-!
# The command line

The program takes a source file and, if the dump is not to go to standard
output, a dump file.  It reads the source, checks that it is UTF-8, reports the
unknown tokens, and only then opens and writes the output, so that the dump may
replace the source itself.  The first step that fails ends the run.

The program is written over a host, which has an environment, reads files,
reports to standard error and opens outputs.  The machine of this library is one
host, the system that the executable runs on is another.  A host may also keep a
log, which is told of every step if the environment asks for it.

Two things end a run in a panic instead of a report: an argument that is no text,
and a standard error that refuses what is reported.  What a panic says of itself
is left out.
-/

namespace LayoutLexer

/-- What the log is told of a run. -/
inductive Record where
  | tokenizing (file : Bytes)
  | scanning (event : Event)
  | tokenized (tokenCount : Nat)
  | unknownToken (text : Option Bytes) (line column : Nat)
  | wroteDump (path : Bytes)
  deriving DecidableEq, Repr

namespace Record

def severity : Record → String
  | tokenizing _ | tokenized _ | wroteDump _ => "INFO"
  | unknownToken .. => "WARN"
  | scanning event => event.severity

def message : Record → String
  | tokenizing _ => "tokenizing"
  | tokenized _ => "tokenized"
  | unknownToken .. => "unknown token"
  | wroteDump _ => "wrote token dump"
  | scanning event => event.message

/-- Lines and columns are counted from one here. -/
def fields : Record → List (String × FieldValue)
  | tokenizing file => [("file", .text (replaceFaults file))]
  | tokenized tokenCount => [("tokens", .number tokenCount)]
  | unknownToken text line column =>
    [("text", .text (Event.optionalText text)), ("line", .number (line + 1)),
      ("col", .number (column + 1))]
  | wroteDump path => [("dump", .text (replaceFaults path))]
  | scanning event => event.fields

end Record

/-- What the program asks of the system that it runs on. -/
structure Host (m : Type → Type) where
  /-- The value of a variable of the environment, if it has one that is a text. -/
  readVariable : String → m (Option String)
  /-- Get the log ready, which may complain of the way it is asked for. -/
  installLog : m Unit
  log : Record → m Unit
  readSource : String → m (Except FileFault Bytes)
  /-- Write to standard error. -/
  report : Bytes → m (Except FileFault Unit)
  /-- Open standard output, or the file at a path, which is created or emptied. -/
  openOutput : Option String → m (Except FileFault (Output m FileFault))

/-- How the program ends. -/
inductive ExitStatus where
  | success
  | failure
  | panicked
  deriving DecidableEq, Repr

def ExitStatus.code : ExitStatus → Nat
  | success => 0
  | failure => 1
  | panicked => 101

/-- Why a run stops before it is done. -/
inductive Stop where
  | failure (failure : Failure)
  | panic
  deriving DecidableEq, Repr

/-- How an output is named in a failure. -/
def outputName : Option String → Bytes
  | none => utf8 "<stdout>"
  | some path => utf8 path

/-- The variable of the environment that asks for a log. -/
def logVariable : String := "RUST_LOG"

/-- A dump file is written in blocks, standard output line by line. -/
def releaseRule : Option String → ReleaseRule
  | none => releaseLines 1024
  | some _ => releaseBlocks 8192

/-- The arguments as texts, if all of them are. -/
def decodeArguments : List Bytes → Option (List String)
  | [] => some []
  | argument :: arguments => do
    let text ← String.fromUTF8? argument.toByteArray
    return text :: (← decodeArguments arguments)

/-- What the log is told of a scan. -/
def scanRecords (source file : Bytes) : List Record :=
  .tokenizing file :: ((trace source).map .scanning ++ [.tokenized (scan source).length])

section

variable {m : Type → Type} [Monad m]

/-- What is written to a stream that is not open is lost without a fault. -/
def Output.discardingIfClosed (output : Output m FileFault) : Output m FileFault where
  write bytes := do
    match ← output.write bytes with
    | .ok () => return .ok ()
    | .error fault => return if fault.isClosed then .ok () else .error fault
  flush := output.flush

/-- An output as the program uses it.  Nobody is told that standard output is closed. -/
def Output.forTarget (output : Output m FileFault) : Option String → Output m FileFault
  | none => output.discardingIfClosed
  | some _ => output

/-- The log of a run, which is told nothing unless the environment asks for a log. -/
def openLog (host : Host m) : m (Record → m Unit) := do
  match ← host.readVariable logVariable with
  | some _ =>
    host.installLog
    return host.log
  | none => return fun _ => pure ()

def logAll (log : Record → m Unit) : List Record → m Unit
  | [] => pure ()
  | record :: records => do
    log record
    logAll log records

/-- Report tokens one by one, until standard error refuses one. -/
def reportTokens (host : Host m) (log : Record → m Unit) (source file : Bytes) :
    List Token → m (Except Stop Unit)
  | [] => return .ok ()
  | token :: tokens => do
    log (.unknownToken token.text token.line token.startColumn)
    match ← host.report (displayUnknown token source file) with
    | .error _ => return .error .panic
    | .ok () => reportTokens host log source file tokens

def dumpSource (host : Host m) (log : Record → m Unit) (source : Bytes)
    (target : Option String) : m (Except Stop Unit) := do
  match ← host.openOutput target with
  | .error fault =>
    return .error (.failure (.unwritableDump (outputName target) [fault.message]))
  | .ok output =>
    match ← writeDumpBuffered (releaseRule target) (output.forTarget target) (scan source) with
    | .error fault =>
      return .error (.failure (.unwritableDump (outputName target) [fault.message]))
    | .ok () =>
      logAll log (target.toList.map fun path => .wroteDump (utf8 path))
      return .ok ()

/-- Read, check, report and dump a source. -/
def processFile (host : Host m) (log : Record → m Unit) (path : String)
    (target : Option String) : m (Except Stop Unit) := do
  match ← host.readSource path with
  | .error fault =>
    return .error (.failure (.unreadableSource (utf8 path) [fault.message]))
  | .ok source =>
    if isUtf8 source then
      logAll log (scanRecords source (utf8 path))
      match ← reportTokens host log source (utf8 path)
          ((scan source).filter fun token => token.kind = .unknown) with
      | .error stop => return .error stop
      | .ok () => dumpSource host log source target
    else
      return .error (.failure (.sourceNotUtf8 (utf8 path)))

/-- The program with its name and its arguments, up to the report of a failure. -/
def runArguments (host : Host m) (log : Record → m Unit) :
    (arguments : List String) → m (Except Stop Unit)
  | [_, path] => processFile host log path none
  | [_, path, target] => processFile host log path (some target)
  | arguments => return .error (.failure (.usage (utf8 (arguments.headD "typy"))))

def runProgram (host : Host m) (log : Record → m Unit) (arguments : List String) :
    m ExitStatus := do
  match ← runArguments host log arguments with
  | .ok () => return .success
  | .error .panic => return .panicked
  | .error (.failure failure) =>
    match ← host.report failure.report with
    | .error _ => return .panicked
    | .ok () => return .failure

/-- The program as the system starts it, with arguments that need not be texts. -/
def runMain (host : Host m) (arguments : List Bytes) : m ExitStatus := do
  let log ← openLog host
  match decodeArguments arguments with
  | none => return .panicked
  | some texts => runProgram host log texts

end

end LayoutLexer
