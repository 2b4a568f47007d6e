import LayoutLexer.Scan
import LayoutLexer.Quoted

/-!
# The log of a scan

Scanning a source leaves a log beside the tokens: one event for every dropped
byte, for every line whose level differs from the level of the line before, and
for every unknown token, and one event at the end.
-/

namespace LayoutLexer

/-- What a scan takes note of. -/
inductive Event where
  | dropped (byte : UInt8) (line : Nat)
  | levelChange (before after line : Nat)
  | unknown (text : Option Bytes) (line column : Nat)
  | complete (byteCount tokenCount : Nat)
  deriving DecidableEq, Repr

/-- The value of a field of a log record. -/
inductive FieldValue where
  | number (value : Nat)
  | text (value : Bytes)
  deriving DecidableEq, Repr

namespace Event

/-- How much an event matters.  Only the end of a scan is worth a debugger's
attention, all else is for tracing. -/
def severity : Event → String
  | complete .. => "DEBUG"
  | dropped .. | levelChange .. | unknown .. => "TRACE"

def message : Event → String
  | dropped .. => "dropping unrecognised byte"
  | levelChange .. => "indentation change"
  | unknown .. => "unknown token"
  | complete .. => "scan complete"

/-- A text that may be missing, as the log has it. -/
def optionalText : Option Bytes → Bytes
  | some text => utf8 "Some(" ++ quoted text ++ utf8 ")"
  | none => utf8 "None"

def fields : Event → List (String × FieldValue)
  | dropped byte line =>
    [("byte", .number byte.toNat), ("line", .number line)]
  | levelChange before after line =>
    [("from", .number before), ("to", .number after), ("line", .number line)]
  | unknown text line column =>
    [("text", .text (optionalText text)), ("line", .number line), ("col", .number column)]
  | complete byteCount tokenCount =>
    [("bytes", .number byteCount), ("tokens", .number tokenCount)]

end Event

def PlacedPiece.events (placed : PlacedPiece) : List Event :=
  match placed.piece with
  | .lexeme .unknown text _ => [.unknown text placed.cursor.line placed.cursor.column]
  | .lineBreak _ =>
    if placed.next.level = placed.cursor.level then []
    else [.levelChange placed.cursor.level placed.next.level placed.next.line]
  | .dropped byte => [.dropped byte placed.cursor.line]
  | .lexeme _ _ _ | .comment _ | .blank _ => []

/-- The log of scanning a source. -/
def trace (source : Bytes) : List Event :=
  (placedPieces source).flatMap PlacedPiece.events ++
    [.complete source.length (scan source).length]

end LayoutLexer
