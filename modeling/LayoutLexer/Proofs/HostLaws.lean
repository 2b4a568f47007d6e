import LayoutLexer.CommandLine
import LayoutLexer.Proofs.BufferedOutput

/-!
# Hosts that serve the program

The program runs over any host.  What it relies on is said here of a host whose state
holds what is stored and what has been reported.  Reading gives what is stored and
changes nothing, what is reported comes behind what has been, a target that cannot be
opened is not touched, and one that can be is emptied and then takes as much as it has
room for.  A log goes to standard error as well.

Every step of the program over such a host then ends in one way, which is proved from
step to step up to the whole run.
-/

namespace LayoutLexer

/-! ## Arguments -/

theorem fromUTF8?_utf8 (text : String) :
    String.fromUTF8? (utf8 text).toByteArray = some text := by
  have valid : (utf8 text).toByteArray.IsValidUTF8 := ⟨text.toList, rfl⟩
  have same : (utf8 text).toByteArray = text.toByteArray := by
    have encoded : (String.ofList text.toList).toByteArray = (utf8 text).toByteArray :=
      String.toByteArray_ofList
    rw [← encoded, String.ofList_toList]
  rw [String.fromUTF8?, dif_pos valid]
  exact congrArg some (String.toByteArray_inj.mp same)

theorem decodeArguments_map_utf8 (texts : List String) :
    decodeArguments (texts.map utf8) = some texts := by
  induction texts with
  | nil => rfl
  | cons text texts ih =>
      rw [List.map_cons, decodeArguments, fromUTF8?_utf8, ih]
      rfl

/-- With arguments that are texts, a run opens its log and goes on. -/
theorem runMain_map_utf8 {m : Type → Type} [Monad m] (host : Host m) (texts : List String) :
    runMain host (texts.map utf8) = openLog host >>= fun log => runProgram host log texts := by
  rw [runMain, decodeArguments_map_utf8]

/-- What is written is made of the texts, one behind the other.  Where there is a log, its
lines may stand before, between and behind them. -/
inductive Tells (logged : Bool) : List Bytes → Bytes → Prop
  | nothing : Tells logged [] []
  | text (text : Bytes) {texts : List Bytes} {written : Bytes} :
      Tells logged texts written → Tells logged (text :: texts) (text ++ written)
  | line (line : Bytes) {texts : List Bytes} {written : Bytes} :
      logged = true → Tells logged texts written → Tells logged texts (line ++ written)

namespace Tells

variable {logged : Bool} {texts more : List Bytes} {written further : Bytes}

theorem append (first : Tells logged texts written) (second : Tells logged more further) :
    Tells logged (texts ++ more) (written ++ further) := by
  induction first with
  | nothing => exact second
  | text text _ ih =>
      rw [List.append_assoc]
      exact .text text ih
  | line line isLogged _ ih =>
      rw [List.append_assoc]
      exact .line line isLogged ih

theorem flatten (logged : Bool) (texts : List Bytes) : Tells logged texts texts.flatten := by
  induction texts with
  | nil => exact .nothing
  | cons text texts ih => exact .text text ih

/-- Without a log nothing but the texts is written. -/
theorem eq_flatten (told : Tells false texts written) : written = texts.flatten := by
  induction told with
  | nothing => rfl
  | text text _ ih => rw [ih, List.flatten_cons]
  | line _ isLogged => cases isLogged

end Tells

/-! ## Platforms -/

/-- What is known of an output that has been opened. -/
structure Opened (ρ : Type) where
  room : Room
  /-- The answer to a write that finds no room. -/
  fault : FileFault
  /-- What is stored when the output has taken some bytes. -/
  holding : Bytes → ρ
  /-- A file keeps what it takes, a device need not. -/
  isFile : Bool

/-- The output takes a content, or it is a standard output that is closed, of which nobody
is told. -/
def Opened.Accepts {ρ : Type} (opened : Opened ρ) (target : Option String)
    (content : Bytes) : Prop :=
  opened.room.fits content = true ∨ target = none ∧ opened.fault.isClosed = true

instance {ρ : Type} (opened : Opened ρ) (target : Option String) (content : Bytes) :
    Decidable (opened.Accepts target content) :=
  inferInstanceAs (Decidable (_ ∨ _))

/-- What is known of the system below a host.  Of its state, one part is what is stored in
files and elsewhere, and the other is what has been reported. -/
structure Platform (σ ρ : Type) where
  state : (stored : ρ) → (reported : Bytes) → σ
  environment : String → Option String
  read : ρ → String → Except FileFault Bytes
  openTarget : ρ → Option String → Except FileFault (Opened ρ)

/-- A host that does on a system what it is asked for. -/
structure Host.Serves {σ ρ : Type} (host : Host (StateM σ)) (platform : Platform σ ρ) : Prop where
  readVariable_eq : ∀ name stored reported,
    host.readVariable name (platform.state stored reported) =
      (platform.environment name, platform.state stored reported)
  /-- The log has no other effect than lines on standard error. -/
  installLog_eq : ∀ stored reported, ∃ line,
    host.installLog (platform.state stored reported) =
      ((), platform.state stored (reported ++ line))
  log_eq : ∀ record stored reported, ∃ line,
    host.log record (platform.state stored reported) =
      ((), platform.state stored (reported ++ line))
  /-- Reading gives what is stored. -/
  readSource_eq : ∀ path stored reported,
    host.readSource path (platform.state stored reported) =
      (platform.read stored path, platform.state stored reported)
  /-- Standard error takes everything. -/
  report_eq : ∀ text stored reported,
    host.report text (platform.state stored reported) =
      (.ok (), platform.state stored (reported ++ text))
  /-- A target that cannot be opened is left alone. -/
  openOutput_error : ∀ target stored reported fault,
    platform.openTarget stored target = .error fault →
      host.openOutput target (platform.state stored reported) =
        (.error fault, platform.state stored reported)
  /-- A target that can be opened is emptied, and takes as much as it has room for. -/
  openOutput_ok : ∀ target stored reported opened,
    platform.openTarget stored target = .ok opened → ∃ output,
      host.openOutput target (platform.state stored reported) =
        (.ok output, platform.state (opened.holding []) reported) ∧
      output.HasRoom opened.room opened.fault fun taken =>
        platform.state (opened.holding taken) reported
  /-- What a file has taken is all that is read there. -/
  read_holding : ∀ path stored opened content,
    platform.openTarget stored (some path) = .ok opened → opened.isFile = true →
      platform.read (opened.holding content) path = .ok content

variable {σ ρ : Type}

namespace Platform

variable {platform : Platform σ ρ}

/-- Whether the environment asks for a log. -/
def isLogged (platform : Platform σ ρ) : Bool :=
  (platform.environment "RUST_LOG").isSome

/-- An action leads from what is stored before to a value and to what is stored after, and
the texts are all that it reports. -/
def Ends {α : Type} (platform : Platform σ ρ) (action : StateM σ α) (before : ρ) (value : α)
    (after : ρ) (texts : List Bytes) : Prop :=
  ∀ reported, ∃ written,
    action (platform.state before reported) = (value, platform.state after (reported ++ written)) ∧
    Tells platform.isLogged texts written

variable {α β : Type} {before between after : ρ} {value : α} {texts more : List Bytes}

theorem Ends.pure (value : α) (stored : ρ) : platform.Ends (pure value) stored value stored [] :=
  fun reported => ⟨[], by rw [List.append_nil]; rfl, .nothing⟩

theorem Ends.bind {result : β} {action : StateM σ α} {goOn : α → StateM σ β}
    (first : platform.Ends action before value between texts)
    (second : platform.Ends (goOn value) between result after more) :
    platform.Ends (action >>= goOn) before result after (texts ++ more) := by
  intro reported
  obtain ⟨written, runs, told⟩ := first reported
  obtain ⟨further, goesOn, toldOn⟩ := second (reported ++ written)
  refine ⟨written ++ further, ?_, told.append toldOn⟩
  rw [run_bind, runs, ← List.append_assoc]
  exact goesOn

/-- An action that reports nothing comes before one that does. -/
theorem Ends.andThen {result : β} {action : StateM σ α} {goOn : α → StateM σ β}
    (first : platform.Ends action before value between [])
    (second : platform.Ends (goOn value) between result after texts) :
    platform.Ends (action >>= goOn) before result after texts :=
  first.bind second

/-- Where no log is asked for, nothing but the texts is reported. -/
theorem Ends.eq_flatten {action : StateM σ α} (ends : platform.Ends action before value after texts)
    (isUnset : platform.environment "RUST_LOG" = none) (reported : Bytes) :
    action (platform.state before reported) =
      (value, platform.state after (reported ++ texts.flatten)) := by
  obtain ⟨written, runs, told⟩ := ends reported
  have unlogged : platform.isLogged = false := congrArg Option.isSome isUnset
  rw [unlogged] at told
  rw [runs, told.eq_flatten]

/-- A log has no effect but lines on standard error. -/
def IsLog (platform : Platform σ ρ) (log : Record → StateM σ Unit) : Prop :=
  ∀ record stored, platform.Ends (log record) stored () stored []

theorem ends_of_line {action : StateM σ Unit} {stored : ρ} (isLogged : platform.isLogged = true)
    (writes : ∀ reported, ∃ line, action (platform.state stored reported) =
      ((), platform.state stored (reported ++ line))) :
    platform.Ends action stored () stored [] := by
  intro reported
  obtain ⟨line, runs⟩ := writes reported
  refine ⟨line, runs, ?_⟩
  have told := Tells.line line isLogged .nothing
  rwa [List.append_nil] at told

end Platform

/-! ## Outputs of the program -/

namespace Output.HasRoom

variable {output : Output (StateM σ) FileFault} {room : Room} {fault : FileFault}
  {state : Bytes → σ}

theorem discardingIfClosed_write (output : Output (StateM σ) FileFault) (bytes : Bytes)
    (now : σ) :
    output.discardingIfClosed.write bytes now =
      match output.write bytes now with
      | (.ok (), next) => (.ok (), next)
      | (.error fault, next) => (if fault.isClosed then .ok () else .error fault, next) := by
  change (output.write bytes >>= _) now = _
  rw [run_bind]
  rcases output.write bytes now with ⟨⟨⟩ | ⟨⟩, next⟩ <;> rfl

theorem discardingIfClosed_of_open (hasRoom : output.HasRoom room fault state)
    (isOpen : fault.isClosed ≠ true) : output.discardingIfClosed.HasRoom room fault state where
  write_eq := fun taken bytes within => by
    rw [discardingIfClosed_write, hasRoom.write_eq taken bytes within]
    by_cases fitting : room.fits (taken ++ bytes) = true
    · simp only [if_pos fitting]
    · simp only [if_neg fitting, if_neg isOpen]
  flush_eq := hasRoom.flush_eq

/-- A closed output seems to take everything. -/
theorem discardingIfClosed_of_closed (hasRoom : output.HasRoom room fault state)
    (isClosed : fault.isClosed = true) :
    output.discardingIfClosed.HasRoom .unlimited fault fun taken => state (room.part taken) where
  write_eq := fun taken bytes _ => by
    have kept : room.part (room.part taken ++ bytes) = room.part (taken ++ bytes) := by
      by_cases fitting : room.fits taken = true
      · rw [Room.part_of_fits fitting]
      · rw [Room.part_part_append fitting, Room.part_append_of_not_fits fitting]
    rw [discardingIfClosed_write, hasRoom.write_eq _ _ (Room.fits_part room taken), kept]
    by_cases fitting : room.fits (room.part taken ++ bytes) = true
    · simp only [if_pos fitting]
      rfl
    · simp only [if_neg fitting, if_pos isClosed]
      rfl
  flush_eq := fun taken => hasRoom.flush_eq (room.part taken)

/-- The dump of a list of tokens at an output as the program uses it. -/
theorem writeDumpBuffered_forTarget {ρ : Type} {opened : Opened ρ}
    {state : Bytes → σ} (hasRoom : output.HasRoom opened.room opened.fault state)
    (target : Option String) (release : ReleaseRule) (tokens : List Token) :
    writeDumpBuffered release (output.forTarget target) tokens (state []) =
      (if opened.Accepts target (dump tokens) then .ok () else .error opened.fault,
        state (opened.room.part (dump tokens))) := by
  cases target with
  | some path =>
      rw [Output.forTarget, hasRoom.writeDumpBuffered_eq]
      simp [Opened.Accepts]
  | none =>
      rw [Output.forTarget]
      by_cases isClosed : opened.fault.isClosed = true
      · have discarding := hasRoom.discardingIfClosed_of_closed isClosed
        have written := discarding.writeDumpBuffered_eq release tokens
        have nothing : opened.room.part [] = [] := Room.part_of_fits (Room.fits_nil _)
        rw [nothing] at written
        have unlimited : Room.unlimited.fits (dump tokens) = true := rfl
        have accepts : opened.Accepts none (dump tokens) := .inr ⟨rfl, isClosed⟩
        rw [written, if_pos unlimited, if_pos accepts]
        rfl
      · rw [(hasRoom.discardingIfClosed_of_open isClosed).writeDumpBuffered_eq]
        simp [Opened.Accepts, isClosed]

end Output.HasRoom

/-! ## The steps of a run -/

namespace Host.Serves

variable {host : Host (StateM σ)} {platform : Platform σ ρ} {stored after : ρ} {path : String}
  {target : Option String} {source : Bytes} {log : Record → StateM σ Unit}
  {arguments : List String} {texts : List Bytes}

theorem ends_report (serves : host.Serves platform) (text : Bytes) (stored : ρ) :
    platform.Ends (host.report text) stored (.ok ()) stored [text] := by
  intro reported
  refine ⟨text, serves.report_eq text stored reported, ?_⟩
  have told := Tells.flatten platform.isLogged [text]
  rwa [List.flatten_singleton] at told

theorem ends_readSource (serves : host.Serves platform) (path : String) (stored : ρ) :
    platform.Ends (host.readSource path) stored (platform.read stored path) stored [] := by
  intro reported
  refine ⟨[], ?_, .nothing⟩
  rw [List.append_nil]
  exact serves.readSource_eq path stored reported

theorem exists_ends_openLog (serves : host.Serves platform) (stored : ρ) :
    ∃ log, platform.IsLog log ∧ platform.Ends (openLog host) stored log stored [] := by
  have asks : platform.Ends (host.readVariable logVariable) stored
      (platform.environment logVariable) stored [] := by
    intro reported
    refine ⟨[], ?_, .nothing⟩
    rw [List.append_nil]
    exact serves.readVariable_eq logVariable stored reported
  cases isAsked : platform.environment logVariable with
  | none =>
      rw [isAsked] at asks
      have isLog : platform.IsLog fun _ => pure () := fun _ stored => .pure () stored
      exact ⟨fun _ => pure (), isLog, asks.andThen (.pure _ stored)⟩
  | some value =>
      rw [isAsked] at asks
      have isLogged : platform.isLogged = true := congrArg Option.isSome isAsked
      have installs : platform.Ends host.installLog stored () stored [] :=
        Platform.ends_of_line isLogged (serves.installLog_eq stored)
      have isLog : platform.IsLog host.log := by
        intro record stored
        exact Platform.ends_of_line isLogged (serves.log_eq record stored)
      exact ⟨host.log, isLog, asks.andThen (installs.andThen (.pure _ stored))⟩

theorem ends_logAll (isLog : platform.IsLog log) (records : List Record) (stored : ρ) :
    platform.Ends (logAll log records) stored () stored [] := by
  induction records with
  | nil => exact .pure () stored
  | cons record records ih => exact (isLog record stored).andThen ih

theorem ends_reportTokens (serves : host.Serves platform) (isLog : platform.IsLog log)
    (source file : Bytes) (tokens : List Token) (stored : ρ) :
    platform.Ends (reportTokens host log source file tokens) stored (.ok ()) stored
      (tokens.map fun token => displayUnknown token source file) := by
  induction tokens with
  | nil => exact .pure (Except.ok ()) stored
  | cons token tokens ih =>
      exact (isLog _ stored).andThen ((serves.ends_report _ stored).bind ih)

theorem ends_dumpSource_unopened (serves : host.Serves platform) {fault : FileFault}
    (unopened : platform.openTarget stored target = .error fault)
    (log : Record → StateM σ Unit) (source : Bytes) :
    platform.Ends (dumpSource host log source target) stored
      (.error (.failure (.unwritableDump (outputName target) [fault.message]))) stored [] := by
  intro reported
  refine ⟨[], ?_, .nothing⟩
  rw [List.append_nil, dumpSource, run_bind,
    serves.openOutput_error target stored reported fault unopened]
  rfl

/-- An output that could be opened takes the dump, or a part of it. -/
theorem ends_dumpSource_opened (serves : host.Serves platform) (isLog : platform.IsLog log)
    {opened : Opened ρ} (opens : platform.openTarget stored target = .ok opened)
    (source : Bytes) :
    platform.Ends (dumpSource host log source target) stored
      (if opened.Accepts target (dump (scan source)) then .ok ()
        else .error (.failure (.unwritableDump (outputName target) [opened.fault.message])))
      (opened.holding (opened.room.part (dump (scan source)))) [] := by
  intro reported
  obtain ⟨output, runs, hasRoom⟩ := serves.openOutput_ok target stored reported opened opens
  have written := hasRoom.writeDumpBuffered_forTarget target (releaseRule target) (scan source)
  rw [dumpSource, run_bind, runs]
  dsimp only
  rw [run_bind, written]
  by_cases accepts : opened.Accepts target (dump (scan source))
  · rw [if_pos accepts, if_pos accepts]
    exact (ends_logAll isLog _ _).andThen (.pure (Except.ok ()) _) reported
  · rw [if_neg accepts, if_neg accepts]
    exact Platform.Ends.pure _ _ reported

theorem ends_processFile_unreadable (serves : host.Serves platform) {fault : FileFault}
    (unreadable : platform.read stored path = .error fault) (log : Record → StateM σ Unit)
    (target : Option String) :
    platform.Ends (processFile host log path target) stored
      (.error (.failure (.unreadableSource (utf8 path) [fault.message]))) stored [] := by
  have reads := serves.ends_readSource path stored
  rw [unreadable] at reads
  exact reads.andThen (.pure _ stored)

theorem ends_processFile_notUtf8 (serves : host.Serves platform)
    (isSource : platform.read stored path = .ok source) (notUtf8 : ∀ text, source ≠ utf8 text)
    (log : Record → StateM σ Unit) (target : Option String) :
    platform.Ends (processFile host log path target) stored
      (.error (.failure (.sourceNotUtf8 (utf8 path)))) stored [] := by
  have invalid : isUtf8 source ≠ true := fun valid =>
    ((isUtf8_iff source).mp valid).elim notUtf8
  have reads := serves.ends_readSource path stored
  rw [isSource] at reads
  apply reads.andThen
  dsimp only
  rw [if_neg invalid]
  exact .pure _ stored

/-- A text is reported and then dumped, whatever becomes of the dump. -/
theorem ends_processFile_text (serves : host.Serves platform) (isLog : platform.IsLog log)
    {text : String} (isSource : platform.read stored path = .ok (utf8 text))
    {result : Except Stop Unit}
    (dumps : platform.Ends (dumpSource host log (utf8 text) target) stored result after []) :
    platform.Ends (processFile host log path target) stored result after
      (diagnose (utf8 text) (utf8 path)) := by
  have valid : isUtf8 (utf8 text) = true := (isUtf8_iff _).mpr ⟨text, rfl⟩
  have reads := serves.ends_readSource path stored
  have logs := ends_logAll isLog (scanRecords (utf8 text) (utf8 path)) stored
  have reports := serves.ends_reportTokens isLog (utf8 text) (utf8 path)
    ((scan (utf8 text)).filter fun token => token.kind = .unknown) stored
  rw [isSource] at reads
  apply reads.andThen
  dsimp only
  rw [if_pos valid, ← List.append_nil (diagnose _ _)]
  exact logs.andThen (reports.bind dumps)

theorem ends_runArguments_usage (log : Record → StateM σ Unit) (stored : ρ)
    (notTwo : arguments.length ≠ 2) (notThree : arguments.length ≠ 3) :
    platform.Ends (runArguments host log arguments) stored
      (.error (.failure (.usage (utf8 (arguments.headD "typy"))))) stored [] := by
  match arguments with
  | [] | [_] | _ :: _ :: _ :: _ :: _ => exact .pure _ stored
  | [_, _] => exact absurd rfl notTwo
  | [_, _, _] => exact absurd rfl notThree

/-! ## Whole runs -/

/-- A run that does not depend on its log goes the same way from the start. -/
theorem ends_runMain (serves : host.Serves platform) {status : ExitStatus}
    (runs : ∀ log, platform.IsLog log →
      platform.Ends (runProgram host log arguments) stored status after texts) :
    platform.Ends (runMain host (arguments.map utf8)) stored status after texts := by
  obtain ⟨log, isLog, opens⟩ := serves.exists_ends_openLog stored
  rw [runMain_map_utf8]
  exact opens.andThen (runs log isLog)

theorem ends_runMain_error (serves : host.Serves platform) {failure : Failure}
    (runs : ∀ log, platform.IsLog log →
      platform.Ends (runArguments host log arguments) stored (.error (.failure failure))
        after texts) :
    platform.Ends (runMain host (arguments.map utf8)) stored .failure after
      (texts ++ [failure.report]) := by
  apply serves.ends_runMain
  intro log isLog
  apply (runs log isLog).bind
  exact (serves.ends_report failure.report after).bind (.pure ExitStatus.failure after)

end Host.Serves

end LayoutLexer
