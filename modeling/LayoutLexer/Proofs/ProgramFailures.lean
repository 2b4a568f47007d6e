import LayoutLexer.Proofs.FailureReports
import LayoutLexer.Proofs.ProgramRuns
import Mathlib.Order.WellFounded

/-!
# Runs that fail

A run comes through stages: the arguments, the source, its encoding, and the output.
Several of them may have a failure in store.  The run ends with the first of these, over
any host that serves the program.  Up to the output it has changed nothing but standard
error, and an output that has no room for the whole dump is left with the part that it has
room for.

Not every host lets all of this be seen.  Lines of a log may stand between the reports, a
run panics instead of failing if an argument is no text or standard error refuses a report,
and nobody learns of a dump that is lost because standard output is closed.
-/

namespace LayoutLexer

variable {σ ρ : Type}

namespace Platform

/-- A failure that a stage of a run has in store, whether or not the run gets there.  The
first argument is the name of the program. -/
inductive Fails (platform : Platform σ ρ) (stored : ρ) (arguments : List String) : Failure → Prop
  | usage : arguments.length ≠ 2 → arguments.length ≠ 3 →
      Fails platform stored arguments (.usage (utf8 (arguments.headD "typy")))
  | unreadable {path : String} {fault : FileFault} {cause : Bytes} :
      arguments[1]? = some path → platform.read stored path = .error fault →
      fault.ToldAs cause →
      Fails platform stored arguments (.unreadableSource (utf8 path) [cause])
  | notUtf8 {path : String} {source : Bytes} : arguments[1]? = some path →
      platform.read stored path = .ok source → (∀ text, source ≠ utf8 text) →
      Fails platform stored arguments (.sourceNotUtf8 (utf8 path))
  | unopened {fault : FileFault} {cause : Bytes} :
      platform.openTarget stored arguments[2]? = .error fault → fault.ToldAs cause →
      Fails platform stored arguments
        (.unwritableDump ((arguments[2]?.map utf8).getD (utf8 "<stdout>")) [cause])
  | unfinished {path : String} {source cause : Bytes} {opened : Opened ρ} :
      arguments[1]? = some path → platform.read stored path = .ok source →
      platform.openTarget stored arguments[2]? = .ok opened →
      ¬ opened.Accepts arguments[2]? (dump (scan source)) → opened.fault.ToldAs cause →
      Fails platform stored arguments
        (.unwritableDump ((arguments[2]?.map utf8).getD (utf8 "<stdout>")) [cause])

/-- The failure of the first stage that has one. -/
structure FailsFirst (platform : Platform σ ρ) (stored : ρ) (arguments : List String)
    (failure : Failure) : Prop where
  fails : platform.Fails stored arguments failure
  first : ∀ other, platform.Fails stored arguments other → failure.stage ≤ other.stage

variable {platform : Platform σ ρ} {stored after : ρ} {arguments : List String}
  {failure : Failure}

/-- A failure of an earlier stage would have come first. -/
theorem FailsFirst.not_fails (failsFirst : platform.FailsFirst stored arguments failure)
    {other : Failure} (isEarlier : other.stage < failure.stage) :
    ¬ platform.Fails stored arguments other :=
  fun fails => Nat.not_lt.mpr (failsFirst.first other fails) isEarlier

end Platform

/-- A dump file is named by its path, and standard output as such. -/
theorem outputName_eq (target : Option String) :
    outputName target = (target.map utf8).getD (utf8 "<stdout>") := by
  cases target <;> rfl

namespace Host.Serves

variable {host : Host (StateM σ)} {platform : Platform σ ρ} {stored : ρ}
  {arguments : List String} {failure : Failure}

/-- One or two arguments name a source and, if there are two, a file for the dump. -/
theorem exists_runArguments_eq (host : Host (StateM σ))
    (notUsage : ¬ platform.Fails stored arguments (.usage (utf8 (arguments.headD "typy")))) :
    ∃ path, arguments[1]? = some path ∧
      ∀ log, runArguments host log arguments = processFile host log path arguments[2]? := by
  match arguments with
  | [] | [_] | _ :: _ :: _ :: _ :: _ => exact absurd (.usage (by simp) (by simp)) notUsage
  | [_, path] => exact ⟨path, rfl, fun _ => rfl⟩
  | [_, path, target] => exact ⟨path, rfl, fun _ => rfl⟩

/-- Before the source is known to be a text, a failure ends the run without a diagnostic. -/
theorem ends_early (serves : host.Serves platform)
    (failsFirst : platform.FailsFirst stored arguments failure) (isEarly : failure.stage < 3) :
    platform.Ends (runMain host (arguments.map utf8)) stored .failure stored
      [failure.report] := by
  rw [← List.nil_append [failure.report]]
  apply serves.ends_runMain_error
  intro log isLog
  cases failsFirst.fails with
  | usage notTwo notThree => exact ends_runArguments_usage log stored notTwo notThree
  | unreadable isPath unreadable told =>
      obtain ⟨path, isSource, runs⟩ :=
        exists_runArguments_eq host (failsFirst.not_fails Nat.one_pos)
      obtain rfl := Option.some.inj (isSource.symm.trans isPath)
      obtain rfl := FileFault.toldAs_iff.mp told
      rw [runs log]
      exact serves.ends_processFile_unreadable unreadable log _
  | notUtf8 isPath readable notUtf8 =>
      obtain ⟨path, isSource, runs⟩ :=
        exists_runArguments_eq host (failsFirst.not_fails Nat.two_pos)
      obtain rfl := Option.some.inj (isSource.symm.trans isPath)
      rw [runs log]
      exact serves.ends_processFile_notUtf8 readable notUtf8 log _
  | unopened => exact absurd isEarly (Nat.lt_irrefl 3)
  | unfinished => exact absurd isEarly (Nat.lt_irrefl 3)

/-- A dump that cannot be written has a text as its source. -/
theorem exists_text (host : Host (StateM σ))
    (failsFirst : platform.FailsFirst stored arguments failure) (isLate : failure.stage = 3) :
    ∃ path text, arguments[1]? = some path ∧ platform.read stored path = .ok (utf8 text) ∧
      ∀ log, runArguments host log arguments = processFile host log path arguments[2]? := by
  obtain ⟨path, isPath, runs⟩ :=
    exists_runArguments_eq host (failsFirst.not_fails (isLate ▸ Nat.succ_pos 2))
  cases isSource : platform.read stored path with
  | error fault =>
      exact absurd (.unreadable isPath isSource fault.toldAs_message)
        (failsFirst.not_fails (isLate ▸ (by decide : 1 < 3)))
  | ok source =>
      by_cases isText : ∃ text, source = utf8 text
      · obtain ⟨text, rfl⟩ := isText
        exact ⟨path, text, isPath, isSource, runs⟩
      · have notUtf8 : ¬ platform.Fails stored arguments (.sourceNotUtf8 (utf8 path)) :=
          failsFirst.not_fails (isLate ▸ (by decide : 2 < 3))
        exact absurd (.notUtf8 isPath isSource fun text same => isText ⟨text, same⟩) notUtf8

/-- What a failure of the output leaves behind. -/
theorem exists_ends_late (serves : host.Serves platform)
    (failsFirst : platform.FailsFirst stored arguments failure) (isLate : failure.stage = 3) :
    ∃ path text after, arguments[1]? = some path ∧
      platform.read stored path = .ok (utf8 text) ∧
      platform.Ends (runMain host (arguments.map utf8)) stored .failure after
        (diagnose (utf8 text) (utf8 path) ++ [failure.report]) ∧
      (∀ fault, platform.openTarget stored arguments[2]? = .error fault → after = stored) ∧
      ∀ opened, platform.openTarget stored arguments[2]? = .ok opened →
        after = opened.holding (opened.room.part (dump (scan (utf8 text)))) := by
  obtain ⟨path, text, isPath, isText, runs⟩ := exists_text host failsFirst isLate
  cases failsFirst.fails with
  | usage | unreadable | notUtf8 => cases isLate
  | @unopened fault _ unopened told =>
      obtain rfl := FileFault.toldAs_iff.mp told
      refine ⟨path, text, stored, isPath, isText, ?_, fun _ _ => rfl, ?_⟩
      · apply serves.ends_runMain_error
        intro log isLog
        have dumps := serves.ends_dumpSource_unopened unopened log (utf8 text)
        rw [outputName_eq] at dumps
        rw [runs log]
        exact serves.ends_processFile_text isLog isText dumps
      · intro opened opens
        rw [unopened] at opens
        cases opens
  | @unfinished _ source _ opened isSource readable opens refuses told =>
      obtain rfl := FileFault.toldAs_iff.mp told
      obtain rfl := Option.some.inj (isPath.symm.trans isSource)
      obtain rfl := Except.ok.inj (isText.symm.trans readable)
      refine ⟨path, text, opened.holding (opened.room.part (dump (scan (utf8 text)))), isPath,
        isText, ?_, ?_, ?_⟩
      · apply serves.ends_runMain_error
        intro log isLog
        have dumps := serves.ends_dumpSource_opened isLog opens (utf8 text)
        rw [if_neg refuses, outputName_eq] at dumps
        rw [runs log]
        exact serves.ends_processFile_text isLog isText dumps
      · intro fault unopened
        rw [opens] at unopened
        cases unopened
      · intro other same
        rw [opens] at same
        rw [Except.ok.inj same]

end Host.Serves

namespace Machine

section

variable {machine : Machine} {program : String} {arguments : List String} {failure : Failure}

/-- A failure before the output leaves all files and standard output as they are. -/
theorem run_of_early_failure
    (failsFirst : platform.FailsFirst machine (program :: arguments) failure)
    (isEarly : failure.stage < 3) :
    machine.run program arguments =
      (.failure, { machine with errors := machine.errors ++ failure.report }) := by
  rw [run_of_ends (host_serves.ends_early failsFirst isEarly), List.flatten_singleton]
  rfl

/-- A failure of the output comes behind the diagnostics.  If the output could be opened, it
holds as much of the dump as it has room for. -/
theorem run_of_late_failure
    (failsFirst : platform.FailsFirst machine (program :: arguments) failure)
    (isLate : failure.stage = 3) :
    ∃ path text after, arguments[0]? = some path ∧
      machine.files.read (utf8 path) = .ok (utf8 text) ∧
      machine.run program arguments = (.failure, after) ∧
      after.errors = machine.errors ++
        ((diagnose (utf8 text) (utf8 path)).flatten ++ failure.report) ∧
      match machine.roomOfTarget arguments[1]? with
      | .error _ => after.files = machine.files ∧ after.output = machine.output
      | .ok room =>
        machine.HoldsDump after (room.part (dump (scan (utf8 text)))) arguments[1]? := by
  obtain ⟨path, text, after, isPath, isText, ends, untouched, kept⟩ :=
    host_serves.exists_ends_late failsFirst isLate
  refine ⟨path, text, _, isPath, isText, run_of_ends ends, ?_, ?_⟩
  · rw [List.flatten_append, List.flatten_singleton]
    rfl
  · rw [roomOfTarget_eq]
    cases opens : machine.openTarget arguments[1]? with
    | error fault =>
        obtain rfl := untouched fault opens
        exact ⟨rfl, rfl⟩
    | ok opened =>
        obtain rfl := kept opened opens
        exact holdsDump_holding opens _ _

end

/-! ## Hosts that keep less -/

end Machine

/-- A record on one line of a log, less the time. -/
def Record.line (record : Record) : Bytes :=
  utf8 record.severity ++ utf8 " typy: " ++ utf8 record.message ++
    (record.fields.flatMap fun (name, value) => utf8 " " ++ utf8 name ++ utf8 "=" ++
      match value with
      | .number value => decimal value
      | .text value => value) ++
    utf8 "\n"

namespace Machine

end Machine

end LayoutLexer
