import LayoutLexer.Quoted

/-!
# Failures of the command line

The command line can fail for want of arguments, because the source cannot be
read or is not UTF-8, or because the dump cannot be written.  A failure has a
name, a message, sometimes a tip, and the causes that lie behind it.
-/

namespace LayoutLexer

/-- Why the command line fails.  Causes are listed from the nearest on. -/
inductive Failure where
  | usage (program : Bytes)
  | unreadableSource (path : Bytes) (causes : List Bytes)
  | sourceNotUtf8 (path : Bytes)
  | unwritableDump (path : Bytes) (causes : List Bytes)
  deriving DecidableEq, Repr

namespace Failure

def name : Failure → String
  | usage _ => "Usage"
  | unreadableSource .. => "ReadSource"
  | sourceNotUtf8 _ => "InvalidUtf8"
  | unwritableDump .. => "WriteDump"

/-- What went wrong, with the path quoted. -/
def message : Failure → Bytes
  | usage _ => utf8 "expected a source file argument"
  | unreadableSource path _ => utf8 "failed to read " ++ quoted path
  | sourceNotUtf8 path => utf8 "source file " ++ quoted path ++ utf8 " is not valid UTF-8"
  | unwritableDump path _ => utf8 "failed to write token dump to " ++ quoted path

/-- What to do about it, with the path as it is. -/
def tip? : Failure → Option Bytes
  | usage program => some (utf8 "usage: " ++ program ++ utf8 " <source-file> [<dump-file>]")
  | unreadableSource path _ =>
    some (utf8 "Could not read `" ++ replaceFaults path ++ utf8 "`, does it exist?")
  | sourceNotUtf8 path => some (utf8 "`" ++ replaceFaults path ++ utf8 "` must be UTF-8 encoded")
  | unwritableDump .. => none

/-- The causes that lie behind a failure. -/
def causes : Failure → List Bytes
  | unreadableSource _ causes | unwritableDump _ causes => causes
  | usage _ | sourceNotUtf8 _ => []

def chain (failure : Failure) : List Bytes :=
  failure.message :: failure.causes

def report (failure : Failure) : Bytes :=
  utf8 "Error: " ++ utf8 failure.name ++
    (match failure.tip? with
      | some tip => utf8 " (" ++ tip ++ utf8 ")"
      | none => []) ++
    utf8 "\n-> " ++ failure.message ++ utf8 "\n" ++
    failure.causes.flatMap fun cause => utf8 "   caused by: " ++ cause ++ utf8 "\n"

end Failure

end LayoutLexer
