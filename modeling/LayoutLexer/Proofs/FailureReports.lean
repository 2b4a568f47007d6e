import LayoutLexer.Failure
import LayoutLexer.FileTree

/-!
# Reports of failures

A report names a failure, says what to do about it if there is something to do, says
what went wrong, and has a line for each cause.  No two stages of a run report a
failure in the same words, so the report tells how far the run has come.
-/

namespace LayoutLexer

namespace FileFault

/-- The words in which a fault is told.  A fault of the system comes with its number. -/
inductive ToldAs (fault : FileFault) : Bytes → Prop
  | numbered {number : Nat} : fault.number? = some number →
      ToldAs fault (utf8 fault.wording ++ utf8 " (os error " ++ decimal number ++ utf8 ")")
  | unnumbered : fault.number? = none → ToldAs fault (utf8 fault.wording)

/-- A fault is told in one way only. -/
theorem toldAs_iff {fault : FileFault} {text : Bytes} :
    fault.ToldAs text ↔ text = fault.message := by
  rw [message]
  constructor
  · intro told
    cases told with
    | numbered isNumber => simp only [isNumber, List.append_assoc]
    | unnumbered noNumber => simp only [noNumber, List.append_nil]
  · intro isMessage
    subst isMessage
    cases isNumber : fault.number? with
    | none =>
        rw [List.append_nil]
        exact .unnumbered isNumber
    | some number =>
        rw [← List.append_assoc, ← List.append_assoc]
        exact .numbered isNumber

theorem toldAs_message (fault : FileFault) : fault.ToldAs fault.message :=
  toldAs_iff.mpr rfl

end FileFault

namespace Failure

/-- The stage of a run that a failure belongs to, counted in the order of the run. -/
def stage : Failure → Nat
  | usage _ => 0
  | unreadableSource .. => 1
  | sourceNotUtf8 _ => 2
  | unwritableDump .. => 3

/-- The lines of a report for the causes of a failure. -/
def causeLines (causes : List Bytes) : Bytes :=
  causes.flatMap fun cause => utf8 "   caused by: " ++ (cause ++ utf8 "\n")

/-- The words in which each failure is told. -/
inductive ToldAs : Failure → Bytes → Prop
  | usage (program : Bytes) :
      ToldAs (.usage program)
        (utf8 "Error: Usage (usage: " ++ program ++ utf8 " <source-file> [<dump-file>])\n" ++
          utf8 "-> expected a source file argument\n")
  | unreadableSource (path : Bytes) (causes : List Bytes) :
      ToldAs (.unreadableSource path causes)
        (utf8 "Error: ReadSource (Could not read `" ++ replaceFaults path ++
          utf8 "`, does it exist?)\n" ++
          utf8 "-> failed to read " ++ quoted path ++ utf8 "\n" ++ causeLines causes)
  | sourceNotUtf8 (path : Bytes) :
      ToldAs (.sourceNotUtf8 path)
        (utf8 "Error: InvalidUtf8 (`" ++ replaceFaults path ++
          utf8 "` must be UTF-8 encoded)\n" ++
          utf8 "-> source file " ++ quoted path ++ utf8 " is not valid UTF-8\n")
  | unwritableDump (path : Bytes) (causes : List Bytes) :
      ToldAs (.unwritableDump path causes)
        (utf8 "Error: WriteDump\n" ++
          utf8 "-> failed to write token dump to " ++ quoted path ++ utf8 "\n" ++
          causeLines causes)

end Failure

end LayoutLexer
