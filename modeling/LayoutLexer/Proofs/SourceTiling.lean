import LayoutLexer.Proofs.LineTokens
import Mathlib.Data.List.DropRight

/-!
# The tokens lie on the source without gaps

A source is tiled by the lexemes of its tokens, comments, single blanks and
single dropped bytes.  The marks of layout stand for no bytes and have no tile.
The line and the columns of a token follow from the tiles in front of it: line
feeds are counted for the line, and the bytes of the line so far, the dropped
ones apart, for the column.  The cursor of a scan carries just these numbers
along, which is the invariant that the proof rests on.
-/

namespace LayoutLexer

/-- What a kind is written as where its tokens carry no text: an entry of the
table of symbols or of keywords, or a line feed. -/
def Kind.IsSpelling : Kind → Bytes → Prop
  | .symbol sign, bytes => Symbol.ofBytes? bytes = some sign
  | .keyword word, bytes => Keyword.ofBytes? bytes = some word
  | .newline, bytes => bytes = [lineFeed]
  | .identifier, _ | .integer, _ | .float, _ | .string, _ | .indent, _ | .dedent, _
  | .unknown, _ | .endMarker, _ => False

/-- The lexeme of a token is its text, or else a spelling of its kind. -/
def Token.IsLexeme (token : Token) (bytes : Bytes) : Prop :=
  match token.text with
  | some text => bytes = text
  | none => token.kind.IsSpelling bytes

/-- A part of a source. -/
inductive Tile where
  | token (token : Token) (lexeme : Bytes)
  | comment (bytes : Bytes)
  | blank (byte : UInt8)
  | dropped (byte : UInt8)
  deriving DecidableEq, Repr

namespace Tile

def bytes : Tile → Bytes
  | token _ lexeme => lexeme
  | comment bytes => bytes
  | blank byte | dropped byte => [byte]

def token? : Tile → Option Token
  | token found _ => some found
  | comment _ | blank _ | dropped _ => none

def isDropped : Tile → Bool
  | dropped _ => true
  | token .. | comment _ | blank _ => false

def bytesOf (tiles : List Tile) : Bytes :=
  tiles.flatMap bytes

@[simp]
theorem bytesOf_append (first second : List Tile) :
    bytesOf (first ++ second) = bytesOf first ++ bytesOf second :=
  List.flatMap_append

@[simp]
theorem bytesOf_singleton (tile : Tile) : bytesOf [tile] = tile.bytes :=
  List.append_nil _

theorem bytesOf_cons (tile : Tile) (tiles : List Tile) :
    bytesOf (tile :: tiles) = tile.bytes ++ bytesOf tiles :=
  rfl

end Tile

/-- Where the last line of a text begins: behind its last line feed. -/
def lastLineStart (text : Bytes) : Nat :=
  (text.rdropWhile fun byte => byte != lineFeed).length

/-- The position of a token with the given lexeme behind tiles.  Its line is the
number of line feeds there.  Its first column is the offset from the beginning
of its line without the bytes dropped on the way. -/
structure Token.StandsBehind (token : Token) (lexeme : Bytes) (before : List Tile) : Prop where
  line_eq : token.line = (Tile.bytesOf before).count lineFeed
  startColumn_eq : ∃ earlier onLine, before = earlier ++ onLine ∧
    (Tile.bytesOf earlier).length = lastLineStart (Tile.bytesOf before) ∧
    token.startColumn + lastLineStart (Tile.bytesOf before) + onLine.countP Tile.isDropped =
      (Tile.bytesOf before).length
  endColumn_eq : token.endColumn = token.startColumn + lexeme.length

/-- What a tile has to be between its neighbours. -/
def Tile.Fits (before after : List Tile) : Tile → Prop
  | token found lexeme =>
    (∀ bytes, found.IsLexeme bytes ↔ bytes = lexeme) ∧ lexeme ≠ [] ∧
      found.StandsBehind lexeme before
  | comment bytes =>
    bytes.head? = some 35 ∧ lineFeed ∉ bytes ∧
      ∀ next, (bytesOf after).head? = some next → next = lineFeed
  | blank byte => (byte = 32 ∨ 9 ≤ byte ∧ byte ≤ 13) ∧ byte ≠ lineFeed
  | dropped byte => 128 ≤ byte ∨ (byte < 32 ∨ byte = 127) ∧ ¬ (9 ≤ byte ∧ byte ≤ 13)

/-- Tiles that fit one behind the other, with further tiles before them. -/
def Tile.AllFit (before : List Tile) : List Tile → Prop
  | [] => True
  | tile :: after => tile.Fits before after ∧ AllFit (before ++ [tile]) after

theorem Tile.fits_of_allFit {before tiles : List Tile} (fit : AllFit before tiles)
    {earlier after : List Tile} {tile : Tile} (split : tiles = earlier ++ tile :: after) :
    tile.Fits (before ++ earlier) after := by
  induction earlier generalizing before tiles with
  | nil =>
      subst split
      rw [List.append_nil]
      exact fit.1
  | cons other earlier ih =>
      subst split
      have fits := ih fit.2 rfl
      rwa [List.append_assoc, List.singleton_append] at fits

/-! ## The cursor behind tiles -/

/-- A cursor that counts the tiles behind which it stands. -/
structure Cursor.Counts (cursor : Cursor) (before : List Tile) : Prop where
  offset_eq : cursor.offset = (Tile.bytesOf before).length
  line_eq : cursor.line = (Tile.bytesOf before).count lineFeed
  lineStart_eq : cursor.lineStart = lastLineStart (Tile.bytesOf before)
  column_eq : ∃ earlier onLine, before = earlier ++ onLine ∧
    (Tile.bytesOf earlier).length = cursor.lineStart ∧
    cursor.column + onLine.countP Tile.isDropped = (Tile.bytesOf onLine).length

namespace Cursor.Counts

theorem start : Cursor.start.Counts [] where
  offset_eq := rfl
  line_eq := rfl
  lineStart_eq := rfl
  column_eq := ⟨[], [], rfl, rfl, rfl⟩

theorem lastLineStart_append {text more : Bytes} (oneLine : lineFeed ∉ more) :
    lastLineStart (text ++ more) = lastLineStart text := by
  induction more using List.reverseRecOn with
  | nil => rw [List.append_nil]
  | append_singleton more byte ih =>
      rw [List.mem_append, not_or, List.mem_singleton] at oneLine
      rw [lastLineStart, ← List.append_assoc, List.rdropWhile_concat_pos _ _ _
        (by simpa using fun same => oneLine.2 same.symm), ← lastLineStart, ih oneLine.1]

theorem lastLineStart_lineFeed (text : Bytes) :
    lastLineStart (text ++ [lineFeed]) = text.length + 1 := by
  rw [lastLineStart, List.rdropWhile_concat_neg _ _ _ (by simp), List.length_append,
    List.length_singleton]

variable {cursor next : Cursor} {before : List Tile}

theorem append_onLine (counts : cursor.Counts before) {tile : Tile}
    (oneLine : lineFeed ∉ tile.bytes) (offset : next.offset = cursor.offset + tile.bytes.length)
    (line : next.line = cursor.line) (lineStart : next.lineStart = cursor.lineStart)
    (column : next.column + (if tile.isDropped then 1 else 0) =
      cursor.column + tile.bytes.length) :
    next.Counts (before ++ [tile]) where
  offset_eq := by
    rw [offset, counts.offset_eq, Tile.bytesOf_append, Tile.bytesOf_singleton,
      List.length_append]
  line_eq := by
    rw [line, counts.line_eq, Tile.bytesOf_append, Tile.bytesOf_singleton, List.count_append,
      List.count_eq_zero_of_not_mem oneLine, Nat.add_zero]
  lineStart_eq := by
    rw [lineStart, counts.lineStart_eq, Tile.bytesOf_append, Tile.bytesOf_singleton,
      lastLineStart_append oneLine]
  column_eq := by
    obtain ⟨earlier, onLine, rfl, start, columns⟩ := counts.column_eq
    refine ⟨earlier, onLine ++ [tile], by rw [List.append_assoc], by rw [start, lineStart], ?_⟩
    rw [List.countP_append, List.countP_singleton, Tile.bytesOf_append, Tile.bytesOf_singleton,
      List.length_append]
    omega

theorem append_lineFeed (counts : cursor.Counts before) {tile : Tile}
    (isBreak : tile.bytes = [lineFeed]) (rest : Bytes) :
    (cursor.nextLine rest).Counts (before ++ [tile]) where
  offset_eq := by
    rw [Tile.bytesOf_append, Tile.bytesOf_singleton, isBreak, List.length_append,
      ← counts.offset_eq]
    rfl
  line_eq := by
    rw [Tile.bytesOf_append, Tile.bytesOf_singleton, isBreak, List.count_append,
      ← counts.line_eq]
    rfl
  lineStart_eq := by
    rw [Tile.bytesOf_append, Tile.bytesOf_singleton, isBreak, lastLineStart_lineFeed,
      ← counts.offset_eq]
    rfl
  column_eq := by
    refine ⟨before ++ [tile], [], by rw [List.append_nil], ?_, rfl⟩
    rw [Tile.bytesOf_append, Tile.bytesOf_singleton, isBreak, List.length_append,
      ← counts.offset_eq]
    rfl

theorem standsBehind (counts : cursor.Counts before) {token : Token} {lexeme : Bytes}
    (line : token.line = cursor.line) (start : token.startColumn = cursor.column)
    (stop : token.endColumn = cursor.column + lexeme.length) :
    token.StandsBehind lexeme before where
  line_eq := line.trans counts.line_eq
  startColumn_eq := by
    obtain ⟨earlier, onLine, split, begins, columns⟩ := counts.column_eq
    refine ⟨earlier, onLine, split, by rw [begins, counts.lineStart_eq], ?_⟩
    have total : (Tile.bytesOf before).length =
        (Tile.bytesOf earlier).length + (Tile.bytesOf onLine).length := by
      rw [split, Tile.bytesOf_append, List.length_append]
    have begin := counts.lineStart_eq
    omega
  endColumn_eq := by rw [stop, start]

end Cursor.Counts

/-! ## The tiles of a piece -/

/-- The tiles of a placed piece.  A line break is a newline token and the blanks
of the margin. -/
def PlacedPiece.tiles (placed : PlacedPiece) : List Tile :=
  match placed.piece with
  | .lexeme kind text bytes =>
    [.token
      { kind
        text
        line := placed.cursor.line
        startColumn := placed.cursor.column
        endColumn := placed.cursor.column + bytes.length }
      bytes]
  | .lineBreak margin =>
    .token (newlineToken placed.cursor.line placed.cursor.column) [lineFeed] ::
      margin.map .blank
  | .comment bytes => [.comment bytes]
  | .blank byte => [.blank byte]
  | .dropped byte => [.dropped byte]

theorem Tile.bytesOf_map_blank (blanks : Bytes) : bytesOf (blanks.map .blank) = blanks := by
  induction blanks with
  | nil => rfl
  | cons byte blanks ih => rw [List.map_cons, bytesOf_cons, ih]; rfl

theorem PlacedPiece.bytesOf_tiles (placed : PlacedPiece) :
    Tile.bytesOf placed.tiles = placed.piece.bytes := by
  unfold tiles
  cases placed.piece with
  | lineBreak margin =>
      rw [Tile.bytesOf_cons, Tile.bytesOf_map_blank]
      rfl
  | _ => exact Tile.bytesOf_singleton _

theorem filter_isSynthetic_layoutTokens (line before after : Nat) :
    (layoutTokens line before after).filter (fun token => !token.kind.isSynthetic) = [] := by
  simp [layoutTokens, Kind.isSynthetic]

theorem PlacedPiece.filterMap_token?_tiles {byte : UInt8} {rest : Bytes} {piece : Piece}
    (leads : Piece.Leads byte rest piece) (cursor : Cursor) :
    (PlacedPiece.tiles { cursor, piece }).filterMap Tile.token? =
      (PlacedPiece.tokens { cursor, piece }).filter fun token => !token.kind.isSynthetic := by
  cases piece with
  | lexeme kind text bytes =>
      have real := leads.kind_of_lexeme.1
      simp [tiles, tokens, Tile.token?, real]
  | lineBreak margin =>
      have noTokens : (margin.map Tile.blank).filterMap Tile.token? = [] := by
        simp [List.filterMap_map, Tile.token?]
      change newlineToken cursor.line cursor.column ::
          (margin.map Tile.blank).filterMap Tile.token? =
        newlineToken cursor.line cursor.column ::
          (layoutTokens _ _ _).filter fun token => !token.kind.isSynthetic
      rw [noTokens, filter_isSynthetic_layoutTokens]
  | comment bytes => rfl
  | blank byte => rfl
  | dropped byte => rfl

/-- The bytes of a lexeme are the only lexeme of its token. -/
theorem Piece.Leads.isLexeme_iff {byte : UInt8} {rest : Bytes} {token : Token} {bytes : Bytes}
    (leads : Piece.Leads byte rest (.lexeme token.kind token.text bytes)) (other : Bytes) :
    token.IsLexeme other ↔ other = bytes := by
  obtain ⟨kind, text, line, startColumn, endColumn⟩ := token
  dsimp only at leads
  cases leads with
  | keyword word isClass isRun => exact Keyword.ofBytes?_eq_some_iff
  | symbol sign isClass found => exact Symbol.ofBytes?_eq_some_iff
  | _ => exact Iff.rfl

/-! ## The tiles of a source -/

def tilesFrom (cursor : Cursor) (pieces : List Piece) : List Tile :=
  (place cursor pieces).flatMap PlacedPiece.tiles

theorem tilesFrom_cons (cursor : Cursor) (piece : Piece) (pieces : List Piece) :
    tilesFrom cursor (piece :: pieces) =
      PlacedPiece.tiles { cursor, piece } ++ tilesFrom (cursor.advance piece) pieces := by
  simp [tilesFrom]

theorem bytesOf_tilesFrom (cursor : Cursor) (source : Bytes) :
    Tile.bytesOf (tilesFrom cursor (cut source)) = source := by
  induction source using cut_induction generalizing cursor with
  | nil => rw [cut_nil]; rfl
  | cons byte rest after split ih =>
      rw [cut_cons split, tilesFrom_cons, Tile.bytesOf_append, PlacedPiece.bytesOf_tiles, ih,
        ← split]

theorem filterMap_token?_tilesFrom (cursor : Cursor) (source : Bytes) :
    (tilesFrom cursor (cut source)).filterMap Tile.token? =
      (tokensFrom cursor (cut source)).filter fun token => !token.kind.isSynthetic := by
  induction source using cut_induction generalizing cursor with
  | nil => rw [cut_nil]; rfl
  | cons byte rest after split ih =>
      rw [cut_cons split, tilesFrom_cons, tokensFrom_cons, List.filterMap_append,
        List.filter_append, PlacedPiece.filterMap_token?_tiles (Piece.leads_first byte rest), ih]

theorem Tile.allFit_map_blank {blanks : Bytes}
    (areBlank : ∀ byte ∈ blanks, ByteClass.of byte = .blank) {cursor : Cursor}
    {before after : List Tile} (counts : cursor.Counts before)
    (fit : ∀ earlier, (cursor.advanceAll (blanks.map .blank)).Counts earlier →
      AllFit earlier after) :
    AllFit before (blanks.map .blank ++ after) := by
  induction blanks generalizing cursor before with
  | nil => exact fit before counts
  | cons byte blanks ih =>
      have isBlank := (class_eq_blank_iff byte).mp (areBlank byte List.mem_cons_self)
      have passed : (cursor.advance (.blank byte)).Counts (before ++ [.blank byte]) :=
        counts.append_onLine (by simpa [bytes] using isBlank.2.symm) rfl rfl rfl rfl
      exact ⟨isBlank, ih (fun other member => areBlank other (List.mem_cons_of_mem _ member))
        passed fit⟩

/-- One piece: its tiles fit, and the cursor behind it counts them. -/
theorem Tile.allFit_tiles_append {byte : UInt8} {rest after : Bytes} {piece : Piece}
    (leads : Piece.Leads byte rest piece) (split : byte :: rest = piece.bytes ++ after)
    {cursor : Cursor} {before behind : List Tile} (counts : cursor.Counts before)
    (behindEq : bytesOf behind = after)
    (fit : ∀ earlier, (cursor.advance piece).Counts earlier → AllFit earlier behind) :
    AllFit before (PlacedPiece.tiles { cursor, piece } ++ behind) := by
  have offset := Cursor.offset_advance cursor piece
  by_cases isBreak : byte = lineFeed
  · subst isBreak
    obtain rfl := leads.eq_first
    have areBlank : ∀ byte ∈ rest.takeWhile isMargin, ByteClass.of byte = .blank :=
      fun byte member => class_of_isMargin (accepts_of_mem_takeWhile member)
    refine ⟨⟨fun bytes => Iff.rfl, List.cons_ne_nil _ _, counts.standsBehind rfl rfl rfl⟩, ?_⟩
    refine allFit_map_blank areBlank (counts.append_lineFeed rfl rest) fun earlier later => ?_
    rw [← advance_lineBreak] at later
    exact fit earlier later
  · have oneLine := leads.lineFeed_not_mem isBreak
    have unbroken : ∀ margin, piece ≠ .lineBreak margin := by
      rintro margin rfl
      exact oneLine List.mem_cons_self
    obtain ⟨line, -, lineStart, column⟩ := advance_unbroken unbroken cursor
    cases piece with
    | lexeme kind text bytes =>
        have notEmpty := leads.eq_first ▸ Piece.first_bytes_ne_nil byte rest
        exact ⟨⟨leads.isLexeme_iff, notEmpty, counts.standsBehind rfl rfl rfl⟩,
          fit _ (counts.append_onLine oneLine offset line lineStart column)⟩
    | lineBreak margin => exact absurd rfl (unbroken margin)
    | comment bytes =>
        have isHash : bytes.head? = some 35 := by
          cases leads with
          | comment run isClass isRun => rw [class_eq_hash_iff.mp isClass]; rfl
        refine ⟨⟨isHash, oneLine, fun next isNext => ?_⟩,
          fit _ (counts.append_onLine oneLine offset line lineStart column)⟩
        exact leads.head?_behind_comment split (behindEq ▸ isNext)
    | blank byte =>
        cases leads with
        | blank isClass =>
            exact ⟨(class_eq_blank_iff byte).mp isClass,
              fit _ (counts.append_onLine oneLine offset line lineStart column)⟩
    | dropped byte =>
        cases leads with
        | dropped isClass =>
            exact ⟨(class_eq_foreign_iff byte).mp isClass,
              fit _ (counts.append_onLine oneLine offset line lineStart column)⟩

/-- From a cursor that counts the tiles before it, the tiles of a source fit. -/
theorem allFit_tilesFrom {cursor : Cursor} {before : List Tile}
    (counts : cursor.Counts before) (source : Bytes) :
    Tile.AllFit before (tilesFrom cursor (cut source)) := by
  induction source using cut_induction generalizing cursor before with
  | nil => rw [cut_nil]; trivial
  | cons byte rest after split ih =>
      rw [cut_cons split, tilesFrom_cons]
      exact Tile.allFit_tiles_append (Piece.leads_first byte rest) split counts
        (bytesOf_tilesFrom _ after) fun earlier counts => ih counts

/-! ## The order of tokens -/

def Token.EndsBefore (first second : Token) : Prop :=
  first.line < second.line ∨ first.line = second.line ∧ first.endColumn ≤ second.startColumn

/-- A token that is no mark of layout begins at the cursor, and the cursor behind
the piece is on a later line or at the end of the token. -/
theorem PlacedPiece.span_of_mem_tokens {cursor : Cursor} {piece : Piece} {token : Token}
    (member : token ∈ PlacedPiece.tokens { cursor, piece })
    (real : token.kind.isSynthetic = false) :
    token.line = cursor.line ∧ token.startColumn = cursor.column ∧
      (token.line < (cursor.advance piece).line ∨
        token.line = (cursor.advance piece).line ∧
          token.endColumn = (cursor.advance piece).column) := by
  cases piece with
  | lexeme kind text bytes =>
      rw [List.mem_singleton.mp member]
      exact ⟨rfl, rfl, Or.inr ⟨rfl, rfl⟩⟩
  | lineBreak margin =>
      rcases List.mem_cons.mp member with rfl | isMark
      · exact ⟨rfl, rfl, Or.inl (Nat.lt_succ_self _)⟩
      · have noMarks := filter_isSynthetic_layoutTokens _ _ _ ▸
          List.mem_filter.mpr ⟨isMark, by rw [real]; rfl⟩
        exact absurd noMarks List.not_mem_nil
  | comment bytes => exact absurd member List.not_mem_nil
  | blank byte => exact absurd member List.not_mem_nil
  | dropped byte => exact absurd member List.not_mem_nil

theorem le_of_mem_tokensFrom {cursor : Cursor} {pieces : List Piece} {token : Token}
    (member : token ∈ tokensFrom cursor pieces) (real : token.kind.isSynthetic = false) :
    cursor.line < token.line ∨
      cursor.line = token.line ∧ cursor.column ≤ token.startColumn := by
  induction pieces generalizing cursor with
  | nil => exact absurd member List.not_mem_nil
  | cons piece pieces ih =>
      rw [tokensFrom_cons, List.mem_append] at member
      rcases member with here | later
      · obtain ⟨line, column, -⟩ := PlacedPiece.span_of_mem_tokens here real
        omega
      · have behind := ih later
        cases piece <;> simp only [Cursor.advance] at behind <;> omega

theorem pairwise_endsBefore_tokensFrom (cursor : Cursor) (pieces : List Piece) :
    ((tokensFrom cursor pieces).filter fun token => !token.kind.isSynthetic).Pairwise
      Token.EndsBefore := by
  induction pieces generalizing cursor with
  | nil => exact .nil
  | cons piece pieces ih =>
      rw [tokensFrom_cons, List.filter_append, List.pairwise_append]
      refine ⟨?_, ih _, fun first isFirst second isSecond => ?_⟩
      · cases piece with
        | lexeme kind text bytes => exact List.Pairwise.filter _ (List.pairwise_singleton _ _)
        | lineBreak margin =>
            change (newlineToken cursor.line cursor.column ::
              (layoutTokens _ _ _).filter fun token => !token.kind.isSynthetic).Pairwise _
            rw [filter_isSynthetic_layoutTokens]
            exact List.pairwise_singleton _ _
        | _ => exact .nil
      · rw [List.mem_filter] at isFirst isSecond
        obtain ⟨-, -, ends⟩ := PlacedPiece.span_of_mem_tokens isFirst.1 (by simpa using isFirst.2)
        have begins := le_of_mem_tokensFrom isSecond.1 (by simpa using isSecond.2)
        rw [Token.EndsBefore]
        omega

/-- A source is cut into tiles without gaps or overlaps: the lexemes of its
tokens in order, the marks of layout apart, comments, single blanks and single
dropped bytes.  Every token stands where the tiles in front of it put it, and no
token begins before the one in front of it has ended. -/
theorem scan_tiles_source (source : Bytes) :
    (∃ tiles : List Tile,
      tiles.flatMap Tile.bytes = source ∧
        tiles.filterMap Tile.token? =
          ((scan source).filter fun token => !token.kind.isSynthetic) ∧
        ∀ before tile after, tiles = before ++ tile :: after → tile.Fits before after) ∧
      ((scan source).filter fun token => !token.kind.isSynthetic).Pairwise Token.EndsBefore := by
  refine ⟨⟨tilesFrom .start (cut source), bytesOf_tilesFrom _ source,
    filterMap_token?_tilesFrom _ source, fun before tile after split => ?_⟩,
    pairwise_endsBefore_tokensFrom _ _⟩
  exact Tile.fits_of_allFit (allFit_tilesFrom .start source) split

end LayoutLexer
