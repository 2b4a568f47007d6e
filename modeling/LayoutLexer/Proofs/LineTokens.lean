import LayoutLexer.Proofs.LineCut

/-!
# Scanning a source line by line

The tokens of a source are the tokens of its lines, each scanned alone and then
moved down to its line, with a newline token and the marks of layout at every
line feed.
-/

namespace LayoutLexer

/-! ## Tokens of pieces from a place on -/

/-- The tokens of pieces, the first of them at the given place. -/
def tokensFrom (cursor : Cursor) (pieces : List Piece) : List Token :=
  (place cursor pieces).flatMap PlacedPiece.tokens

theorem scan_eq_tokensFrom (source : Bytes) : scan source = tokensFrom .start (cut source) :=
  rfl

@[simp]
theorem tokensFrom_nil (cursor : Cursor) : tokensFrom cursor [] = [] :=
  rfl

@[simp]
theorem tokensFrom_cons (cursor : Cursor) (piece : Piece) (pieces : List Piece) :
    tokensFrom cursor (piece :: pieces) =
      PlacedPiece.tokens { cursor, piece } ++ tokensFrom (cursor.advance piece) pieces := by
  simp [tokensFrom]

@[simp]
theorem Cursor.advanceAll_nil (cursor : Cursor) : cursor.advanceAll [] = cursor :=
  rfl

@[simp]
theorem Cursor.advanceAll_cons (cursor : Cursor) (piece : Piece) (pieces : List Piece) :
    cursor.advanceAll (piece :: pieces) = (cursor.advance piece).advanceAll pieces :=
  rfl

theorem Cursor.advanceAll_append (cursor : Cursor) (first second : List Piece) :
    cursor.advanceAll (first ++ second) = (cursor.advanceAll first).advanceAll second :=
  List.foldl_append

theorem tokensFrom_append (cursor : Cursor) (first second : List Piece) :
    tokensFrom cursor (first ++ second) =
      tokensFrom cursor first ++ tokensFrom (cursor.advanceAll first) second := by
  induction first generalizing cursor with
  | nil => rfl
  | cons piece first ih => simp [ih]

/-- A token belongs to one of the pieces, at the place behind the pieces before it. -/
theorem exists_piece_of_mem_tokensFrom {cursor : Cursor} {pieces : List Piece} {token : Token}
    (member : token ∈ tokensFrom cursor pieces) :
    ∃ before piece after, pieces = before ++ piece :: after ∧
      token ∈ PlacedPiece.tokens { cursor := cursor.advanceAll before, piece } := by
  induction pieces generalizing cursor with
  | nil => exact absurd member List.not_mem_nil
  | cons piece pieces ih =>
      rw [tokensFrom_cons, List.mem_append] at member
      rcases member with here | later
      · exact ⟨[], piece, pieces, rfl, here⟩
      · obtain ⟨before, other, after, rfl, isToken⟩ := ih later
        exact ⟨piece :: before, other, after, rfl, isToken⟩

/-! ## The tokens of one line -/

def Token.onLine (line : Nat) (token : Token) : Token :=
  { token with line }

/-- The number of bytes of a source that are dropped when it is scanned. -/
def droppedCount (source : Bytes) : Nat :=
  (cut source).countP Piece.isDropped

/-- Without a line break only the line and the column of the first piece matter
to the tokens. -/
theorem tokensFrom_eq_map_onLine {pieces : List Piece}
    (unbroken : ∀ piece ∈ pieces, ∀ margin, piece ≠ .lineBreak margin)
    {cursor base : Cursor} (sameColumn : cursor.column = base.column) :
    tokensFrom cursor pieces = (tokensFrom base pieces).map (Token.onLine cursor.line) := by
  induction pieces generalizing cursor base with
  | nil => rfl
  | cons piece pieces ih =>
      have unbrokenRest : ∀ other ∈ pieces, ∀ margin, other ≠ .lineBreak margin :=
        fun other member => unbroken other (List.mem_cons_of_mem _ member)
      have here : PlacedPiece.tokens { cursor, piece } =
          (PlacedPiece.tokens { cursor := base, piece }).map (Token.onLine cursor.line) := by
        cases piece with
        | lexeme kind text bytes => simp [PlacedPiece.tokens, Token.onLine, sameColumn]
        | lineBreak margin => exact absurd rfl (unbroken _ List.mem_cons_self margin)
        | comment bytes => rfl
        | blank byte => rfl
        | dropped byte => rfl
      have stillSame : (cursor.advance piece).column = (base.advance piece).column := by
        cases piece <;> simp [Cursor.advance, sameColumn]
      have sameLine : (cursor.advance piece).line = cursor.line := by
        cases piece with
        | lineBreak margin => exact absurd rfl (unbroken _ List.mem_cons_self margin)
        | _ => rfl
      rw [tokensFrom_cons, tokensFrom_cons, List.map_append, here,
        ih unbrokenRest stillSame, sameLine]

/-- A piece that is no line break stays on its line.  Its bytes go into the
column unless it is dropped. -/
theorem advance_unbroken {piece : Piece} (unbroken : ∀ margin, piece ≠ .lineBreak margin)
    (cursor : Cursor) :
    (cursor.advance piece).line = cursor.line ∧
      (cursor.advance piece).level = cursor.level ∧
      (cursor.advance piece).lineStart = cursor.lineStart ∧
      (cursor.advance piece).column + (if piece.isDropped then 1 else 0) =
        cursor.column + piece.bytes.length := by
  cases piece with
  | lineBreak margin => exact absurd rfl (unbroken margin)
  | _ => exact ⟨rfl, rfl, rfl, rfl⟩

theorem advanceAll_unbroken {pieces : List Piece}
    (unbroken : ∀ piece ∈ pieces, ∀ margin, piece ≠ .lineBreak margin) (cursor : Cursor) :
    (cursor.advanceAll pieces).line = cursor.line ∧
      (cursor.advanceAll pieces).level = cursor.level ∧
      (cursor.advanceAll pieces).lineStart = cursor.lineStart ∧
      (cursor.advanceAll pieces).column + pieces.countP Piece.isDropped =
        cursor.column + (pieces.flatMap Piece.bytes).length := by
  induction pieces generalizing cursor with
  | nil => exact ⟨rfl, rfl, rfl, rfl⟩
  | cons piece pieces ih =>
      obtain ⟨line, level, lineStart, column⟩ :=
        advance_unbroken (unbroken _ List.mem_cons_self) cursor
      obtain ⟨lines, levels, lineStarts, columns⟩ := ih
        (fun other member => unbroken other (List.mem_cons_of_mem _ member))
        (cursor.advance piece)
      rw [Cursor.advanceAll_cons, List.flatMap_cons, List.length_append, List.countP_cons]
      exact ⟨lines.trans line, levels.trans level, lineStarts.trans lineStart, by omega⟩

/-- Moving past a piece moves the line by the line feeds of the piece. -/
theorem line_advance {byte : UInt8} {rest : Bytes} {piece : Piece}
    (leads : Piece.Leads byte rest piece) (cursor : Cursor) :
    (cursor.advance piece).line = cursor.line + piece.bytes.count lineFeed := by
  by_cases isBreak : byte = lineFeed
  · subst isBreak
    obtain rfl := leads.eq_first
    have noBreak : lineFeed ∉ rest.takeWhile isMargin := not_mem_takeWhile (by decide) rest
    rw [Piece.first_lineFeed, Piece.bytes, List.count_cons_self,
      List.count_eq_zero_of_not_mem noBreak]
    rfl
  · have unbroken : ∀ margin, piece ≠ .lineBreak margin := by
      rintro margin rfl
      exact leads.lineFeed_not_mem isBreak List.mem_cons_self
    rw [(advance_unbroken unbroken cursor).1,
      List.count_eq_zero_of_not_mem (leads.lineFeed_not_mem isBreak), Nat.add_zero]

theorem line_advanceAll_cut (cursor : Cursor) (source : Bytes) :
    (cursor.advanceAll (cut source)).line = cursor.line + source.count lineFeed := by
  induction source using cut_induction generalizing cursor with
  | nil => rw [cut_nil]; rfl
  | cons byte rest after split ih =>
      rw [cut_cons split, Cursor.advanceAll_cons, ih,
        line_advance (Piece.leads_first byte rest), Nat.add_assoc, ← List.count_append, ← split]

theorem scan_line_eq {line : Bytes} (oneLine : lineFeed ∉ line) {cursor : Cursor}
    (atHead : cursor.column = 0) :
    tokensFrom cursor (cut line) = (scan line).map (Token.onLine cursor.line) :=
  tokensFrom_eq_map_onLine (fun _ member => ne_lineBreak_of_mem_cut oneLine member) atHead

theorem kind_of_mem_scan_line {line : Bytes} (oneLine : lineFeed ∉ line) {token : Token}
    (member : token ∈ scan line) : token.kind.isSynthetic = false ∧ token.kind ≠ .newline := by
  obtain ⟨placed, isPlaced, isToken⟩ := List.mem_flatMap.mp member
  have isPiece : placed.piece ∈ cut line := by
    rw [← map_piece_place .start (cut line)]
    exact List.mem_map_of_mem isPlaced
  obtain ⟨byte, rest, -, isFirst⟩ := eq_first_of_mem_cut isPiece
  unfold PlacedPiece.tokens at isToken
  split at isToken
  · rename_i kind text bytes isLexeme
    rw [List.mem_singleton] at isToken
    subst isToken
    exact (Piece.leads_iff.mpr (isLexeme.symm.trans isFirst)).kind_of_lexeme
  · rename_i margin isBreak
    exact absurd isBreak (ne_lineBreak_of_mem_cut oneLine isPiece margin)
  all_goals exact absurd isToken List.not_mem_nil

def Token.isMark (token : Token) : Bool :=
  token.kind = .indent || token.kind = .dedent

/-- A mark of layout stands on its line and has no text, and it does not end the line. -/
theorem of_mem_layoutTokens {line before after : Nat} {token : Token}
    (member : token ∈ layoutTokens line before after) :
    token.line = line ∧ token.kind ≠ .newline ∧ token.kind.carriesText = false ∧
      token.text = none := by
  simp only [layoutTokens, List.mem_append, List.mem_replicate] at member
  rcases member with ⟨-, rfl⟩ | ⟨-, rfl⟩ <;> exact ⟨rfl, Kind.noConfusion, rfl, rfl⟩

theorem filter_isMark_layoutTokens (line before after : Nat) :
    (layoutTokens line before after).filter (fun token => !token.isMark) = [] := by
  simp [layoutTokens, Token.isMark]

theorem filter_isMark_map_onLine {line : Bytes} (oneLine : lineFeed ∉ line) (number : Nat) :
    ((scan line).map (Token.onLine number)).filter (fun token => !token.isMark) =
      (scan line).map (Token.onLine number) := by
  rw [List.filter_eq_self]
  intro token member
  obtain ⟨original, isToken, rfl⟩ := List.mem_map.mp member
  have notSynthetic := (kind_of_mem_scan_line oneLine isToken).1
  cases kind : original.kind <;> simp_all [Token.isMark, Token.onLine, Kind.isSynthetic]

/-! ## From one line to the next -/

/-- The level of indentation of a line that is not the first. -/
def lineLevel (line : Bytes) : Nat :=
  marginLevel (line.takeWhile isMargin).length

def newlineToken (line column : Nat) : Token where
  kind := .newline
  text := none
  line
  startColumn := column
  endColumn := column + 1

/-- The column at the end of a line. -/
def lineWidth (line : Bytes) : Nat :=
  line.length - droppedCount line

/-- Column zero of the next line, at a level that the margin there settles. -/
def Cursor.nextLine (cursor : Cursor) (rest : Bytes) : Cursor where
  offset := cursor.offset + 1
  line := cursor.line + 1
  lineStart := cursor.offset + 1
  column := 0
  level := lineLevel rest

/-- Taking up the margin with the line break comes to the same place as passing
its blanks one at a time. -/
theorem advance_lineBreak (cursor : Cursor) (rest : Bytes) :
    cursor.advance (.lineBreak (rest.takeWhile isMargin)) =
      (cursor.nextLine rest).advanceAll ((rest.takeWhile isMargin).map .blank) := by
  -- Blanks move the offset and the column alike and leave all else.
  have passed (blanks : Bytes) (place : Cursor) :
      place.advanceAll (blanks.map .blank) =
        { place with
          offset := place.offset + blanks.length
          column := place.column + blanks.length } := by
    induction blanks generalizing place with
    | nil => rfl
    | cons byte blanks ih =>
        rw [List.map_cons, Cursor.advanceAll_cons, ih]
        simp only [Cursor.advance, List.length_cons, Cursor.mk.injEq, true_and, and_true]
        omega
  simp [passed, Cursor.advance, Cursor.nextLine, lineLevel]

theorem tokensFrom_blanks (cursor : Cursor) (blanks : Bytes) :
    tokensFrom cursor (blanks.map .blank) = [] := by
  induction blanks generalizing cursor with
  | nil => rfl
  | cons byte blanks ih => simp [ih, PlacedPiece.tokens]

theorem tokensFrom_behind_lineBreak (cursor : Cursor) (rest : Bytes) :
    tokensFrom (cursor.advance (.lineBreak (rest.takeWhile isMargin)))
        (cut (rest.dropWhile isMargin)) =
      tokensFrom (cursor.nextLine rest) (cut rest) := by
  rw [cut_margin rest, tokensFrom_append, tokensFrom_blanks, List.nil_append, advance_lineBreak]

theorem advanceAll_behind_lineBreak (cursor : Cursor) (rest : Bytes) :
    (cursor.advance (.lineBreak (rest.takeWhile isMargin))).advanceAll
        (cut (rest.dropWhile isMargin)) =
      (cursor.nextLine rest).advanceAll (cut rest) := by
  rw [cut_margin rest, Cursor.advanceAll_append, advance_lineBreak]

theorem tokensFrom_cut_cons {line : Bytes} (oneLine : lineFeed ∉ line) {cursor : Cursor}
    (atHead : cursor.column = 0) (rest : Bytes) :
    tokensFrom cursor (cut (line ++ lineFeed :: rest)) =
      (scan line).map (Token.onLine cursor.line) ++
        newlineToken cursor.line (lineWidth line) ::
          (layoutTokens (cursor.line + 1) cursor.level (lineLevel rest) ++
            tokensFrom ((cursor.advanceAll (cut line)).nextLine rest) (cut rest)) := by
  obtain ⟨sameLine, sameLevel, -, column⟩ := advanceAll_unbroken
    (fun _ member => ne_lineBreak_of_mem_cut oneLine member) cursor
  rw [atHead, flatMap_bytes_cut, Nat.zero_add] at column
  have width : (cursor.advanceAll (cut line)).column = lineWidth line := by
    rw [lineWidth, droppedCount]
    omega
  rw [cut_append_lineFeed oneLine, tokensFrom_append, scan_line_eq oneLine atHead,
    cut_lineFeed_cons, tokensFrom_cons, tokensFrom_behind_lineBreak]
  have here : PlacedPiece.tokens
      { cursor := cursor.advanceAll (cut line)
        piece := .lineBreak (rest.takeWhile isMargin) } =
      newlineToken cursor.line (lineWidth line) ::
        layoutTokens (cursor.line + 1) cursor.level (lineLevel rest) := by
    simp [PlacedPiece.tokens, PlacedPiece.next, Cursor.advance, newlineToken, lineLevel,
      sameLine, sameLevel, width]
  rw [here, List.cons_append]

/-- The tokens of lines, the first of which has the given number and level.
Every line but the last ends in a newline token, which the marks of layout of
the next line follow. -/
def tokensOfLines (number level : Nat) : List Bytes → List Token
  | [] => []
  | [line] => (scan line).map (Token.onLine number)
  | line :: next :: later =>
    (scan line).map (Token.onLine number) ++
      newlineToken number (lineWidth line) ::
        (layoutTokens (number + 1) level (lineLevel next) ++
          tokensOfLines (number + 1) (lineLevel next) (next :: later))

theorem tokensFrom_cut {cursor : Cursor} (atHead : cursor.column = 0) (source : Bytes) :
    tokensFrom cursor (cut source) =
      tokensOfLines cursor.line cursor.level (sourceLines source) := by
  induction source using line_induction generalizing cursor with
  | last line oneLine => rw [sourceLines_last oneLine, tokensOfLines, scan_line_eq oneLine atHead]
  | cons line rest oneLine ih =>
      obtain ⟨next, later, lines⟩ := List.exists_cons_of_ne_nil (sourceLines_ne_nil rest)
      have sameLevel : lineLevel rest = lineLevel next := by
        rw [lineLevel, lineLevel, takeWhile_isMargin_of_sourceLines lines]
      have sameLine : (cursor.advanceAll (cut line)).line = cursor.line :=
        (advanceAll_unbroken
          (fun _ member => ne_lineBreak_of_mem_cut oneLine member) cursor).1
      rw [tokensFrom_cut_cons oneLine atHead, ih rfl, sourceLines_cons oneLine, lines,
        tokensOfLines, Cursor.nextLine, sameLine, sameLevel]

/-- A scan is the scans of the lines, put together. -/
theorem scan_eq_tokensOfLines (source : Bytes) :
    scan source = tokensOfLines 0 0 (sourceLines source) := by
  rw [scan_eq_tokensFrom, tokensFrom_cut rfl]
  rfl

/-- The level at the end of a source is that of its last line. -/
theorem level_advanceAll_cut {source first : Bytes} {later : List Bytes}
    (lines : sourceLines source = first :: later) (cursor : Cursor) :
    (cursor.advanceAll (cut source)).level =
      later.foldl (fun _ line => lineLevel line) cursor.level := by
  induction source using line_induction generalizing first later cursor with
  | last line oneLine =>
      rw [sourceLines_last oneLine, List.cons.injEq] at lines
      rw [← lines.2]
      exact (advanceAll_unbroken (fun _ => ne_lineBreak_of_mem_cut oneLine) cursor).2.1
  | cons line rest oneLine ih =>
      obtain ⟨next, others, restLines⟩ := List.exists_cons_of_ne_nil (sourceLines_ne_nil rest)
      rw [sourceLines_cons oneLine, restLines, List.cons.injEq] at lines
      have sameLevel : lineLevel rest = lineLevel next := by
        rw [lineLevel, lineLevel, takeWhile_isMargin_of_sourceLines restLines]
      rw [cut_append_lineFeed oneLine, Cursor.advanceAll_append, cut_lineFeed_cons,
        Cursor.advanceAll_cons, advanceAll_behind_lineBreak, ih restLines, ← lines.2,
        List.foldl_cons, ← sameLevel]
      rfl

end LayoutLexer
