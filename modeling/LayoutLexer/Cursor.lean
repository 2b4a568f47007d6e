import LayoutLexer.Piece

/-!
# Positions in a source

A cursor says where a piece begins: its offset in bytes, its line, the offset
at which that line begins, its column and the level of indentation of the line.
Moving past a piece moves all of these; a dropped byte alone moves the offset
and leaves the column, and only a line break changes the line, its start and
the level.
-/

namespace LayoutLexer

/-- The number of columns of one level of indentation. -/
def tabSize : Nat := 4

/-- The level of a line with a margin of the given width.  One column may be
missing from a level. -/
def marginLevel (width : Nat) : Nat :=
  (width + 1) / tabSize

structure Cursor where
  offset : Nat
  line : Nat
  lineStart : Nat
  column : Nat
  level : Nat
  deriving DecidableEq, Repr

namespace Cursor

def start : Cursor where
  offset := 0
  line := 0
  lineStart := 0
  column := 0
  level := 0

/-- The place behind a piece.  After a line break the width of the margin is the
distance to the start of the new line. -/
def advance (cursor : Cursor) : Piece → Cursor
  | .lexeme _ _ bytes | .comment bytes =>
    { cursor with
      offset := cursor.offset + bytes.length
      column := cursor.column + bytes.length }
  | .blank _ =>
    { cursor with
      offset := cursor.offset + 1
      column := cursor.column + 1 }
  | .dropped _ =>
    { cursor with offset := cursor.offset + 1 }
  | .lineBreak margin =>
    let lineStart := cursor.offset + 1
    let offset := lineStart + margin.length
    { offset
      line := cursor.line + 1
      lineStart
      column := margin.length
      level := marginLevel (offset - lineStart) }

/-- Moving past a piece moves the offset by the bytes of the piece. -/
@[simp]
theorem offset_advance (cursor : Cursor) (piece : Piece) :
    (cursor.advance piece).offset = cursor.offset + piece.bytes.length := by
  cases piece with
  | lineBreak margin =>
      simp only [advance, Piece.bytes, List.length_cons]
      omega
  | _ => rfl

def advanceAll (cursor : Cursor) (pieces : List Piece) : Cursor :=
  pieces.foldl advance cursor

@[simp]
theorem offset_advanceAll (cursor : Cursor) (pieces : List Piece) :
    (cursor.advanceAll pieces).offset =
      cursor.offset + (pieces.flatMap Piece.bytes).length := by
  induction pieces generalizing cursor with
  | nil => simp [advanceAll]
  | cons piece pieces ih =>
      rw [show cursor.advanceAll (piece :: pieces) =
        (cursor.advance piece).advanceAll pieces from rfl, ih, offset_advance,
        List.flatMap_cons, List.length_append]
      omega

end Cursor

/-- A piece together with the place where it begins. -/
structure PlacedPiece where
  cursor : Cursor
  piece : Piece
  deriving DecidableEq, Repr

/-- Place pieces one behind the other, adding them to those already placed. -/
def placeOnto (placed : Array PlacedPiece) (cursor : Cursor) :
    List Piece → Array PlacedPiece
  | [] => placed
  | piece :: pieces =>
    placeOnto (placed.push { cursor, piece }) (cursor.advance piece) pieces

/-- The pieces with their places, the first of them at the given place. -/
def place (cursor : Cursor) (pieces : List Piece) : List PlacedPiece :=
  (placeOnto #[] cursor pieces).toList

theorem placeOnto_toList (placed : Array PlacedPiece) (cursor : Cursor)
    (pieces : List Piece) :
    (placeOnto placed cursor pieces).toList = placed.toList ++ place cursor pieces := by
  induction pieces generalizing placed cursor with
  | nil => simp [place, placeOnto]
  | cons piece pieces ih =>
      rw [place, placeOnto, placeOnto, ih, ih (#[].push _)]
      simp

@[simp]
theorem place_nil (cursor : Cursor) : place cursor [] = [] :=
  rfl

@[simp]
theorem place_cons (cursor : Cursor) (piece : Piece) (pieces : List Piece) :
    place cursor (piece :: pieces) =
      { cursor, piece } :: place (cursor.advance piece) pieces := by
  rw [place, placeOnto, placeOnto_toList]
  rfl

theorem map_piece_place (cursor : Cursor) (pieces : List Piece) :
    (place cursor pieces).map PlacedPiece.piece = pieces := by
  induction pieces generalizing cursor with
  | nil => rfl
  | cons piece pieces ih => simp [ih]

end LayoutLexer
