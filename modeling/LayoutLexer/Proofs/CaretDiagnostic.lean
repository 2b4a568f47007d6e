import LayoutLexer.Proofs.DroppedBytes
import LayoutLexer.Proofs.LineLocality
import Mathlib.Data.List.Basic

/-!
# Where the carets of a diagnostic stand

A diagnostic for an unknown token puts its carets into the columns of the token,
below the line as it is shown.  Columns do not count the bytes that are dropped,
and the line is shown without a carriage return at its end.  Where nothing is
dropped in front of the token on its line and its text does not end in a carriage
return, the carets stand under the text.  Elsewhere they need not: they are too far
to the left by the number of bytes dropped, and the one for the carriage return has
nothing above it.
-/

namespace LayoutLexer

/-! ## Shown lines -/

theorem shownLine_append {behind : Bytes} (notEmpty : behind ≠ []) (front : Bytes) :
    shownLine (front ++ behind) = front ++ shownLine behind := by
  rw [shownLine, shownLine, List.getLast?_append_of_ne_nil _ notEmpty]
  split
  · exact List.dropLast_append_of_ne_nil notEmpty
  · rfl

theorem shownLine_isPrefix (line : Bytes) : shownLine line <+: line := by
  unfold shownLine
  split
  · exact List.dropLast_prefix line
  · exact List.prefix_refl line

theorem shownLine_eq_self {line : Bytes} (noReturn : line.getLast? ≠ some carriageReturn) :
    shownLine line = line :=
  if_neg noReturn

/-! ## The lines of a diagnostic -/

/-- A diagnostic that shows a line on its fourth line and carets on its fifth.  The
first bar stands in the same column of the three lines of the gutter.  One space
behind it begin the line that is shown, and below it the given number of carets
behind the given number of columns. -/
def LaidOut (diagnostic shown : Bytes) (start carets : Nat) : Prop :=
  ∃ warning arrow number column, number.length = column ∧ 124 ∉ number ∧
    sourceLines diagnostic =
      [warning, arrow,
        List.replicate column 32 ++ [124],
        number ++ 124 :: 32 :: shown,
        List.replicate column 32 ++ 124 :: 32 ::
          (List.replicate start 32 ++ List.replicate carets 94),
        []]

/-- The lines of the diagnostic for a token with a text, each without a line feed. -/
theorem sourceLines_displayUnknown {token : Token} {source file shown text : Bytes}
    (hasText : token.text = some text) (shows : getLine source token.line = some shown)
    (oneLineText : lineFeed ∉ text) (oneLineFile : lineFeed ∉ file)
    (oneLineShown : lineFeed ∉ shown) :
    sourceLines (displayUnknown token source file) =
      let number := decimal (token.line + 1) ++ [32]
      [utf8 "Warning: unknown token `" ++ text ++ utf8 "`",
        utf8 "-> " ++ file,
        List.replicate number.length 32 ++ [124],
        number ++ 124 :: 32 :: shown,
        List.replicate number.length 32 ++ 124 :: 32 ::
          (List.replicate token.startColumn 32 ++
            List.replicate (max 1 (token.endColumn - token.startColumn)) 94),
        []] := by
  have noBreak := not_mem_decimal lineFeed (by decide) (token.line + 1)
  have notWarning : lineFeed ∉ utf8 "Warning: unknown token `" := by decide +kernel
  have notArrow : lineFeed ∉ utf8 "-> " := by decide
  have notTick : lineFeed ∉ utf8 "`" := by decide
  have notSpace : lineFeed ≠ 32 := by decide
  have notBar : lineFeed ≠ 124 := by decide
  have notCaret : lineFeed ≠ 94 := by decide
  have tick : utf8 "`\n" = utf8 "`" ++ [lineFeed] := rfl
  have newline : utf8 "\n" = [lineFeed] := rfl
  have bar : utf8 "|" = [124] := rfl
  have middle : utf8 " | " = [32, 124, 32] := rfl
  have caret : utf8 "^" = [94] := rfl
  have gap : utf8 " " = [32] := rfl
  refine Eq.trans (congrArg sourceLines ?_) (List.splitOn_intercalate lineFeed ?_
    (List.cons_ne_nil _ _))
  · simp only [displayUnknown, hasText, shows, tick, newline, bar, middle, caret, gap,
      List.flatten_replicate_singleton, Option.getD_some, List.intercalate_cons_cons,
      List.intercalate_singleton, List.append_assoc, List.cons_append, List.nil_append,
      List.append_nil, List.length_append, List.length_singleton]
  · simp [notWarning, notArrow, notTick, notSpace, notBar, notCaret, noBreak, oneLineText,
      oneLineFile, oneLineShown]

theorem laidOut_displayUnknown {token : Token} {source file shown text : Bytes}
    (hasText : token.text = some text) (shows : getLine source token.line = some shown)
    (oneLineText : lineFeed ∉ text) (oneLineFile : lineFeed ∉ file)
    (oneLineShown : lineFeed ∉ shown) :
    LaidOut (displayUnknown token source file) shown token.startColumn
      (max 1 (token.endColumn - token.startColumn)) := by
  have noBar := not_mem_decimal 124 (by decide) (token.line + 1)
  have noSpace : 124 ∉ [(32 : UInt8)] := by decide
  exact ⟨_, _, decimal (token.line + 1) ++ [32], _, rfl,
    by rw [List.mem_append, not_or]; exact ⟨noBar, noSpace⟩,
    sourceLines_displayUnknown hasText shows oneLineText oneLineFile oneLineShown⟩

/-! ## The token of a diagnostic on its line -/

/-- The carets for a token stand under its text: the line that is shown has the text
in the columns of the token, and there are as many carets as the text has bytes. -/
structure CaretsUnder (source file : Bytes) (token : Token) (shown text : Bytes) : Prop where
  shows : getLine source token.line = some shown
  text_eq : token.text = some text
  laidOut : LaidOut (displayUnknown token source file) shown token.startColumn text.length
  above_eq : (shown.take token.endColumn).drop token.startColumn = text

/-- Where the carets for a token stand on a line that is cut into pieces.  Columns leave
out the bytes that are dropped in front of the token, so its text begins as many bytes
behind the first caret.  There is a caret for every byte of the text, also for a carriage
return at its end, which is not shown. -/
structure CaretsFollowColumns (source file : Bytes) (token : Token) (line text : Bytes)
    (before after : List Piece) : Prop where
  line_eq : (sourceLines source)[token.line]? = some line
  text_eq : token.text = some text
  cut_eq : cut line = before ++ .lexeme .unknown (some text) text :: after
  startColumn_eq : token.startColumn + before.countP Piece.isDropped =
    (before.flatMap Piece.bytes).length
  endColumn_eq : token.endColumn = token.startColumn + text.length
  shows : getLine source token.line = some (shownLine line)
  laidOut : LaidOut (displayUnknown token source file) (shownLine line) token.startColumn
    text.length
  above_eq : ((shownLine line).take (token.endColumn + before.countP Piece.isDropped)).drop
    (token.startColumn + before.countP Piece.isDropped) = shownLine text

/-- Only a line feed is behind an unknown text that ends in a carriage return. -/
theorem Piece.Leads.head?_behind_carriageReturn {byte : UInt8} {rest bytes behind : Bytes}
    {text : Option Bytes} (leads : Piece.Leads byte rest (.lexeme .unknown text bytes))
    (split : byte :: rest = bytes ++ behind) (isReturn : carriageReturn ∈ bytes) :
    ∀ next, behind.head? = some next → next = lineFeed := by
  generalize kindEq : Kind.unknown = kind at leads
  cases leads with
  | number run isClass isRun =>
      rcases List.mem_cons.mp isReturn with same | inRun
      · exact absurd same (ne_of_class isClass (by decide))
      · exact absurd inRun (isRun ▸ not_mem_takeWhile (by decide) rest)
  | openString inside after isClass notQuote oneLine parts ends =>
      exact Piece.head?_behind_open parts ends split
  | sign isClass notFound =>
      exact absurd (List.mem_singleton.mp isReturn) (ne_of_class isClass (by decide))
  | keyword | identifier | string | symbol => cases kindEq

/-- A line is shown with the text of an unknown token in its place, as far as the text
is shown. -/
theorem take_drop_shownLine {line text : Bytes} {before after : List Piece}
    (oneLine : lineFeed ∉ line)
    (parts : cut line = before ++ .lexeme .unknown (some text) text :: after) :
    let offset := (before.flatMap Piece.bytes).length
    ((shownLine line).take (offset + text.length)).drop offset = shownLine text := by
  obtain ⟨byte, rest, split, leads⟩ := leads_of_cut_eq_append parts
  have whole : line = before.flatMap Piece.bytes ++ (text ++ after.flatMap Piece.bytes) := by
    rw [← flatMap_bytes_cut line, parts, List.flatMap_append, List.flatMap_cons]
    rfl
  have notEmpty : text ≠ [] := leads.bytes_ne_nil
  generalize after.flatMap Piece.bytes = behind at whole split
  have noBreak : lineFeed ∉ behind := fun member =>
    oneLine (by rw [whole]; exact List.mem_append_right _ (List.mem_append_right _ member))
  dsimp only
  rw [whole, shownLine_append (List.append_ne_nil_of_left_ne_nil notEmpty behind),
    List.take_length_add_append, List.drop_left]
  cases behind with
  | nil =>
      rw [List.append_nil]
      exact List.take_of_length_le (shownLine_isPrefix text).length_le
  | cons next behind =>
      have noReturn : text.getLast? ≠ some carriageReturn := fun isLast =>
        noBreak (leads.head?_behind_carriageReturn split (List.mem_of_getLast? isLast) next rfl ▸
          List.mem_cons_self)
      rw [shownLine_append (List.cons_ne_nil _ _), List.take_left, shownLine_eq_self noReturn]

/-- An unknown token of a source is an unknown piece of its line, behind as many bytes
as its first column says, those left out that are dropped. -/
theorem exists_piece_of_mem_scan {source : Bytes} {token : Token} (member : token ∈ scan source)
    (isUnknown : token.kind = .unknown) :
    ∃ line text before after, (sourceLines source)[token.line]? = some line ∧
      token.text = some text ∧ cut line = before ++ .lexeme .unknown (some text) text :: after ∧
      token.startColumn + before.countP Piece.isDropped = (before.flatMap Piece.bytes).length ∧
      token.endColumn = token.startColumn + text.length := by
  have onLine : token ∈ lineTokens source token.line := by
    simp [lineTokens, Token.isMark, member, isUnknown]
  rw [lineTokens_eq_ownTokens, ownTokens] at onLine
  generalize token.line = number at onLine ⊢
  split at onLine
  · exact absurd onLine List.not_mem_nil
  · rename_i line isLine
    have oneLine := lineFeed_not_mem_of_mem_sourceLines (List.mem_of_getElem? isLine)
    rcases List.mem_append.mp onLine with own | isBreak
    · obtain ⟨original, isToken, moved⟩ := List.mem_map.mp own
      obtain ⟨before, piece, after, parts, isOwn⟩ := exists_piece_of_mem_tokensFrom isToken
      have isPiece : piece ∈ cut line := by simp [parts]
      have unbroken : ∀ other ∈ before, ∀ margin, other ≠ .lineBreak margin := fun other member =>
        ne_lineBreak_of_mem_cut oneLine (by simp [parts, member])
      obtain ⟨-, -, -, column⟩ := advanceAll_unbroken unbroken .start
      subst moved
      cases piece with
      | lexeme kind text bytes =>
          obtain rfl := List.mem_singleton.mp isOwn
          obtain rfl : kind = .unknown := isUnknown
          obtain ⟨byte, rest, -, leads⟩ := leads_of_cut_eq_append parts
          obtain rfl := Piece.text_of_first_eq_lexeme leads.eq_first.symm
          exact ⟨line, bytes, before, after, isLine, rfl, parts,
            column.trans (Nat.zero_add _), rfl⟩
      | lineBreak margin => exact absurd rfl (ne_lineBreak_of_mem_cut oneLine isPiece margin)
      | comment bytes => exact absurd isOwn List.not_mem_nil
      | blank byte => exact absurd isOwn List.not_mem_nil
      | dropped byte => exact absurd isOwn List.not_mem_nil
    · split at isBreak
      · rw [List.mem_singleton.mp isBreak] at isUnknown
        cases isUnknown
      · exact absurd isBreak List.not_mem_nil

/-- The carets for an unknown token follow its columns.  They stand under its text where
no byte is dropped in front of it on its line and it does not end in a carriage return. -/
theorem carets_follow_columns {source file : Bytes} {token : Token} (oneLine : lineFeed ∉ file)
    (member : token ∈ scan source) (isUnknown : token.kind = .unknown) :
    ∃ line text before after, CaretsFollowColumns source file token line text before after ∧
      (before.countP Piece.isDropped = 0 → text.getLast? ≠ some carriageReturn →
        CaretsUnder source file token (shownLine line) text) := by
  obtain ⟨line, text, before, after, isLine, hasText, parts, startColumn, endColumn⟩ :=
    exists_piece_of_mem_scan member isUnknown
  have noBreak := lineFeed_not_mem_of_mem_sourceLines (List.mem_of_getElem? isLine)
  have noBreakText : lineFeed ∉ text := by
    rw [← flatMap_bytes_cut line, parts] at noBreak
    exact fun inText => noBreak (by simp [Piece.bytes, inText])
  have shows : getLine source token.line = some (shownLine line) := by
    rw [getLine, isLine, Option.map_some]
  have width : max 1 (token.endColumn - token.startColumn) = text.length := by
    obtain ⟨byte, rest, -, leads⟩ := leads_of_cut_eq_append parts
    have notEmpty : 0 < text.length := List.length_pos_iff.mpr leads.bytes_ne_nil
    omega
  have laidOut := width ▸ laidOut_displayUnknown hasText shows noBreakText oneLine
    fun shown => noBreak ((shownLine_isPrefix line).subset shown)
  have above : ((shownLine line).take (token.endColumn + before.countP Piece.isDropped)).drop
      (token.startColumn + before.countP Piece.isDropped) = shownLine text := by
    rw [endColumn, Nat.add_right_comm, startColumn]
    exact take_drop_shownLine noBreak parts
  refine ⟨line, text, before, after,
    ⟨isLine, hasText, parts, startColumn, endColumn, shows, laidOut, above⟩,
    fun noneDropped noReturn => ⟨shows, hasText, laidOut, ?_⟩⟩
  rwa [noneDropped, Nat.add_zero, Nat.add_zero, shownLine_eq_self noReturn] at above

/-! ## Where nothing is dropped -/

/-- Every byte that is dropped on the line of a token is behind the token's first column. -/
def NoneDroppedBefore (source : Bytes) (token : Token) : Prop :=
  ∀ line, (sourceLines source)[token.line]? = some line →
    ∀ offset ∈ Tile.droppedOffsets 0 (tilesFrom .start (cut line)), token.startColumn < offset

theorem countP_isDropped_le (pieces : List Piece) :
    pieces.countP Piece.isDropped ≤ (pieces.flatMap Piece.bytes).length := by
  induction pieces with
  | nil => exact Nat.le_refl 0
  | cons piece pieces ih =>
      have own : (if piece.isDropped then 1 else 0) ≤ piece.bytes.length := by
        cases piece with
        | dropped byte => exact Nat.le_refl 1
        | lexeme | lineBreak | comment | blank => exact Nat.zero_le _
      rw [List.countP_cons, List.flatMap_cons, List.length_append, Nat.add_comm]
      exact Nat.add_le_add own ih

/-- Before the first dropped byte columns count every byte, so it is not behind a column
that leaves some byte out. -/
theorem countP_isDropped_eq_zero {pieces : List Piece} {column : Nat} {cursor : Cursor}
    (place : column + pieces.countP Piece.isDropped = (pieces.flatMap Piece.bytes).length)
    (behind : ∀ offset ∈ Tile.droppedOffsets 0 (tilesFrom cursor pieces), column < offset) :
    pieces.countP Piece.isDropped = 0 := by
  cases found : pieces.find? Piece.isDropped with
  | none =>
      apply List.countP_eq_zero.mpr
      exact List.find?_eq_none.mp found
  | some piece =>
      obtain ⟨isDropped, front, back, rfl, kept⟩ := List.find?_eq_some_iff_append.mp found
      obtain ⟨byte, rfl⟩ : ∃ byte, piece = .dropped byte := by
        cases piece with
        | dropped byte => exact ⟨byte, rfl⟩
        | lexeme | lineBreak | comment | blank => cases isDropped
      have noneInFront : front.countP Piece.isDropped = 0 :=
        List.countP_eq_zero.mpr fun other member => by simpa using kept other member
      have first := Tile.mem_droppedOffsets 0 (tilesFrom cursor front)
        (tilesFrom ((cursor.advanceAll front).advance (.dropped byte)) back) byte
      have parts : tilesFrom cursor (front ++ .dropped byte :: back) = tilesFrom cursor front ++
          .dropped byte :: tilesFrom ((cursor.advanceAll front).advance (.dropped byte)) back := by
        rw [tilesFrom_append, tilesFrom_cons]
        rfl
      rw [← parts] at first
      have bound := behind _ first
      have least := countP_isDropped_le back
      rw [bytesOf_tilesFrom_pieces] at bound
      rw [List.countP_append, List.countP_cons_of_pos isDropped, List.flatMap_append,
        List.flatMap_cons, List.length_append, List.length_append] at place
      change _ = _ + (1 + _) at place
      omega

/-- Where nothing is dropped in front of an unknown token and its text does not end in a
carriage return, the carets stand under its text. -/
theorem carets_stand_under_text {source file : Bytes} {token : Token}
    (oneLine : lineFeed ∉ file) (member : token ∈ scan source) (isUnknown : token.kind = .unknown)
    (noneDropped : NoneDroppedBefore source token)
    (noReturn : ∀ text, token.text = some text → text.getLast? ≠ some carriageReturn) :
    ∃ shown text, CaretsUnder source file token shown text := by
  obtain ⟨line, text, before, after, follow, under⟩ :=
    carets_follow_columns oneLine member isUnknown
  have behind : ∀ offset ∈ Tile.droppedOffsets 0 (tilesFrom .start before),
      token.startColumn < offset := by
    intro offset isDropped
    apply noneDropped line follow.line_eq offset
    rw [follow.cut_eq, tilesFrom_append, Tile.droppedOffsets_append]
    exact List.mem_append_left _ isDropped
  exact ⟨shownLine line, text, under (countP_isDropped_eq_zero follow.startColumn_eq behind)
    (noReturn text follow.text_eq)⟩

/-- The dropped character stands behind the token. -/
theorem carets_stand_under_text_before_dropped :
    let source := utf8 "a $é"
    let file := utf8 "f"
    let token : Token :=
      { kind := .unknown, text := some (utf8 "$"), line := 0, startColumn := 2, endColumn := 3 }
    (lineFeed ∉ file ∧ token ∈ scan source ∧ token.kind = .unknown ∧
        NoneDroppedBefore source token ∧
        ∀ text, token.text = some text → text.getLast? ≠ some carriageReturn) ∧
      ∃ shown text, CaretsUnder source file token shown text := by
  intro source file token
  have oneLine : lineFeed ∉ file := by decide
  have member : token ∈ scan source := by decide +kernel
  have noneDropped : NoneDroppedBefore source token := by
    intro line isLine
    obtain rfl : source = line := Option.some.inj (Eq.trans (by decide +kernel) isLine)
    decide +kernel
  have noReturn (text : Bytes) (isText : token.text = some text) :
      text.getLast? ≠ some carriageReturn := by
    obtain rfl := Option.some.inj isText
    decide
  exact ⟨⟨oneLine, member, rfl, noneDropped, noReturn⟩,
    carets_stand_under_text oneLine member rfl noneDropped noReturn⟩

/-- Behind dropped bytes carets stand too far to the left, and under a text that ends in
a carriage return there is one caret too many. -/
theorem not_caretsUnder :
    (∃ token ∈ scan (utf8 "é$"), token.kind = .unknown ∧
      ∀ shown text, ¬ CaretsUnder (utf8 "é$") (utf8 "f") token shown text) ∧
    ∃ token ∈ scan (utf8 "'a\r\n"), token.kind = .unknown ∧
      ∀ shown text, ¬ CaretsUnder (utf8 "'a\r\n") (utf8 "f") token shown text := by
  constructor
  · refine ⟨⟨.unknown, some (utf8 "$"), 0, 0, 1⟩, by decide +kernel, rfl, ?_⟩
    intro shown text under
    obtain rfl : utf8 "é$" = shown := Option.some.inj (Eq.trans (by decide +kernel) under.shows)
    obtain rfl := Option.some.inj under.text_eq
    exact absurd under.above_eq (by decide +kernel)
  · refine ⟨⟨.unknown, some (utf8 "'a\r"), 0, 0, 3⟩, by decide +kernel, rfl, ?_⟩
    intro shown text under
    obtain rfl : utf8 "'a" = shown := Option.some.inj (Eq.trans (by decide +kernel) under.shows)
    obtain rfl := Option.some.inj under.text_eq
    exact absurd under.above_eq (by decide +kernel)

end LayoutLexer
