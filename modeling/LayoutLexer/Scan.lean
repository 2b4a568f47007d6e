import LayoutLexer.Cursor
import LayoutLexer.Token

/-!
# From pieces to tokens

A lexeme becomes one token at its place.  A line break becomes a newline token
followed by as many indents or dedents as its line is deeper or shallower than
the line before.  Comments, blanks and dropped bytes become nothing.
-/

namespace LayoutLexer

/-- The marks between a line of one level and a next line of another. -/
def layoutTokens (line before after : Nat) : List Token :=
  let mark (kind : Kind) : Token :=
    { kind, text := none, line, startColumn := 0, endColumn := tabSize }
  List.replicate (after - before) (mark .indent) ++
    List.replicate (before - after) (mark .dedent)

namespace PlacedPiece

def next (placed : PlacedPiece) : Cursor :=
  placed.cursor.advance placed.piece

def tokens (placed : PlacedPiece) : List Token :=
  match placed.piece with
  | .lexeme kind text bytes =>
    [{ kind
       text
       line := placed.cursor.line
       startColumn := placed.cursor.column
       endColumn := placed.cursor.column + bytes.length }]
  | .lineBreak _ =>
    { kind := .newline
      text := none
      line := placed.cursor.line
      startColumn := placed.cursor.column
      endColumn := placed.cursor.column + 1 } ::
      layoutTokens placed.next.line placed.cursor.level placed.next.level
  | .comment _ | .blank _ | .dropped _ => []

end PlacedPiece

def placedPieces (source : Bytes) : List PlacedPiece :=
  place .start (cut source)

def scan (source : Bytes) : List Token :=
  (placedPieces source).flatMap PlacedPiece.tokens

end LayoutLexer
