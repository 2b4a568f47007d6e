import LayoutLexer.Proofs.CharacterBoundary
import LayoutLexer.Proofs.Indentation
import Mathlib.Data.List.TakeWhile

/-!
# Lines that end in a carriage return and a line feed

Putting a carriage return in front of every line feed of a source hardly changes its tokens.
The carriage return is a blank at the end of its line, and no margin counts it, so it only
moves the newline token by one column.  A comment takes it up without a trace.  A string that
is not closed takes it up as well, and then its text and its last column show it.

Each line is scanned on its own, so this is settled for one line first: its pieces stay as
they are, but for one that goes on to the end of the line, if there is one.
-/

namespace LayoutLexer

/-- A source with a carriage return put in front of every line feed. -/
def crlf (source : Bytes) : Bytes :=
  source.flatMap fun byte =>
    if byte = lineFeed then [carriageReturn, lineFeed] else [byte]

/-- Whether a kind and a text are those of a string that its line ends before it is closed:
an unknown text that a quote begins. -/
def isOpenString : Kind → Option Bytes → Bool
  | .unknown, some (first :: _) => ByteClass.of first == .quote
  | _, _ => false

theorem isOpenString_eq_false {first : UInt8} (notQuote : ByteClass.of first ≠ .quote)
    (kind : Kind) (tail : Bytes) : isOpenString kind (some (first :: tail)) = false := by
  cases kind with
  | unknown => simpa [isOpenString] using notQuote
  | _ => rfl

/-- What a token becomes when carriage returns are put in front of the line feeds.  The
token behind it tells whether it goes on to a line feed. -/
def Token.withReturn (token : Token) (next : Option Token) : Token :=
  if token.kind = .newline then
    { token with
      startColumn := token.startColumn + 1
      endColumn := token.endColumn + 1 }
  else if isOpenString token.kind token.text ∧ next.map Token.kind = some .newline then
    { token with
      text := token.text.map fun text => text ++ [carriageReturn]
      endColumn := token.endColumn + 1 }
  else token

def withReturns : List Token → List Token
  | [] => []
  | token :: tokens => token.withReturn tokens.head? :: withReturns tokens

/-! ## Tokens that stay as they are -/

theorem Token.withReturn_eq_self {token : Token} (notNewline : token.kind ≠ .newline)
    (notOpen : isOpenString token.kind token.text = false) (next : Option Token) :
    token.withReturn next = token := by
  rw [withReturn, if_neg notNewline, if_neg (by simp [notOpen])]

theorem withReturns_append {front : List Token}
    (same : ∀ token ∈ front, token.kind ≠ .newline ∧ isOpenString token.kind token.text = false)
    (tokens : List Token) : withReturns (front ++ tokens) = front ++ withReturns tokens := by
  induction front with
  | nil => rfl
  | cons token front ih =>
      obtain ⟨notNewline, notOpen⟩ := same token List.mem_cons_self
      rw [List.cons_append, withReturns, Token.withReturn_eq_self notNewline notOpen,
        ih fun other member => same other (List.mem_cons_of_mem _ member), List.cons_append]

/-- Without a newline token there is no line feed to put anything in front of. -/
theorem withReturns_eq_self {tokens : List Token}
    (unbroken : ∀ token ∈ tokens, token.kind ≠ .newline) : withReturns tokens = tokens := by
  induction tokens with
  | nil => rfl
  | cons token tokens ih =>
      have unbrokenRest : ∀ other ∈ tokens, other.kind ≠ .newline :=
        fun other member => unbroken other (List.mem_cons_of_mem _ member)
      have notNext : tokens.head?.map Token.kind ≠ some .newline := by
        rw [ne_eq, Option.map_eq_some_iff]
        rintro ⟨next, isNext, isNewline⟩
        exact unbrokenRest next (List.mem_of_head? isNext) isNewline
      have stays : token.withReturn tokens.head? = token := by
        rw [Token.withReturn, if_neg (unbroken token List.mem_cons_self),
          if_neg fun both => notNext both.2]
      rw [withReturns, stays, ih unbrokenRest]

theorem same_of_mem_layoutTokens {line before after : Nat} {token : Token}
    (member : token ∈ layoutTokens line before after) :
    token.kind ≠ .newline ∧ isOpenString token.kind token.text = false := by
  obtain ⟨-, notNewline, -, noText⟩ := of_mem_layoutTokens member
  rw [noText]
  exact ⟨notNewline, by cases token.kind <;> rfl⟩

theorem Token.kind_withReturn (token : Token) (next : Option Token) :
    (token.withReturn next).kind = token.kind := by
  unfold withReturn
  (repeat' split) <;> rfl

theorem map_kind_withReturns (tokens : List Token) :
    (withReturns tokens).map Token.kind = tokens.map Token.kind := by
  induction tokens with
  | nil => rfl
  | cons token tokens ih =>
      rw [withReturns, List.map_cons, List.map_cons, Token.kind_withReturn, ih]

/-! ## The pieces of a line with a carriage return -/

theorem lineFeed_not_mem_append_return {line : Bytes} (oneLine : lineFeed ∉ line) :
    lineFeed ∉ line ++ [carriageReturn] := by
  rw [List.mem_append, List.mem_singleton, not_or]
  exact ⟨oneLine, by decide⟩

namespace Piece

/-- Pieces that go on to the end of their line whatever there is. -/
def takesLine : Piece → Bool
  | comment _ => true
  | lexeme kind text _ => isOpenString kind text
  | lineBreak _ | blank _ | dropped _ => false

def withReturn : Piece → Piece
  | lexeme kind text bytes =>
    lexeme kind (text.map fun text => text ++ [carriageReturn]) (bytes ++ [carriageReturn])
  | comment bytes => comment (bytes ++ [carriageReturn])
  | other => other

variable {byte : UInt8} {rest : Bytes} {piece : Piece}

theorem bytes_withReturn (takes : piece.takesLine = true) :
    piece.withReturn.bytes = piece.bytes ++ [carriageReturn] := by
  cases piece with
  | lexeme kind text bytes => rfl
  | comment bytes => rfl
  | lineBreak | blank | dropped => cases takes

theorem isDropped_withReturn (piece : Piece) : piece.withReturn.isDropped = piece.isDropped := by
  cases piece <;> rfl

/-- A carriage return at the end of a line ends all other pieces, if it comes to that. -/
theorem Leads.append_return (leads : Leads byte rest piece) (stays : piece.takesLine = false)
    (notBreak : byte ≠ lineFeed) : Leads byte (rest ++ [carriageReturn]) piece := by
  have sameRun (accepts : UInt8 → Bool) (stops : accepts carriageReturn = false) :
      (rest ++ [carriageReturn]).takeWhile accepts = rest.takeWhile accepts :=
    takeWhile_append_stop stops rest []
  cases leads with
  | lineBreak isBreak => exact absurd isBreak notBreak
  | blank isClass => exact .blank isClass
  | number run isClass isRun =>
      exact .number run isClass (by rw [sameRun _ (by decide), isRun])
  | keyword word isClass isRun =>
      exact .keyword word isClass (by rw [sameRun _ (by decide), isRun])
  | identifier run isClass isRun notKeyword =>
      exact .identifier run isClass (by rw [sameRun _ (by decide), isRun]) notKeyword
  | string inside behind isClass notQuote oneLine split =>
      exact .string inside (behind ++ [carriageReturn]) isClass notQuote oneLine
        (by rw [split, List.append_assoc, List.cons_append])
  | openString inside behind isClass notQuote oneLine split ends =>
      simp [takesLine, isOpenString, isClass] at stays
  | comment run isClass isRun => cases stays
  | symbol sign isClass found =>
      exact .symbol sign isClass (by rw [sameRun _ (by decide), found])
  | sign isClass notFound =>
      exact .sign isClass (by rw [sameRun _ (by decide), notFound])
  | dropped isClass => exact .dropped isClass

/-- A comment or an open string takes up a carriage return at the end of its line. -/
theorem Leads.withReturn (leads : Leads byte rest piece) (takes : piece.takesLine = true)
    (oneLine : lineFeed ∉ rest) :
    piece.bytes = byte :: rest ∧ Leads byte (rest ++ [carriageReturn]) piece.withReturn := by
  have notOpen {sort : ByteClass} (isClass : ByteClass.of byte = sort) (notQuote : sort ≠ .quote)
      {kind : Kind} {tail bytes : Bytes}
      (takes : (lexeme kind (some (byte :: tail)) bytes).takesLine = true) : False := by
    rw [takesLine, isOpenString_eq_false (isClass ▸ notQuote)] at takes
    cases takes
  cases leads with
  | number run isClass isRun => exact (notOpen isClass ByteClass.noConfusion takes).elim
  | identifier run isClass isRun notKeyword =>
      exact (notOpen isClass ByteClass.noConfusion takes).elim
  | sign isClass notFound => exact (notOpen isClass ByteClass.noConfusion takes).elim
  | openString inside behind isClass notQuote notBreak split ends =>
      have nothing : behind = [] := by
        cases behind with
        | nil => rfl
        | cons next behind =>
            rw [split, ends next rfl] at oneLine
            exact absurd (List.mem_append_right _ List.mem_cons_self) oneLine
      rw [nothing, List.append_nil] at split
      subst split
      have notReturn : byte ≠ carriageReturn := by
        rintro rfl
        cases isClass
      have notInside : byte ∉ rest ++ [carriageReturn] := by simp [notQuote, notReturn]
      exact ⟨rfl, .openString (rest ++ [carriageReturn]) [] isClass notInside
        (lineFeed_not_mem_append_return oneLine) (by simp) (by simp)⟩
  | comment run isClass isRun =>
      have whole {line : Bytes} (oneLine : lineFeed ∉ line) :
          line.takeWhile (fun other => other != lineFeed) = line := by
        refine List.takeWhile_eq_self_iff.mpr fun other member => ?_
        simpa using fun same : other = lineFeed => oneLine (same ▸ member)
      rw [whole oneLine] at isRun
      subst isRun
      exact ⟨rfl, .comment (run ++ [carriageReturn]) isClass
        (whole (lineFeed_not_mem_append_return oneLine)).symm⟩
  | lineBreak | blank | keyword | string | symbol | dropped => cases takes

end Piece

/-- Pieces of a line with a carriage return at its end. -/
def returnBehind : List Piece → List Piece
  | [] => [.blank carriageReturn]
  | piece :: pieces =>
    if piece.takesLine then piece.withReturn :: pieces else piece :: returnBehind pieces

/-- A piece that goes on to the end of a line is its last one. -/
theorem eq_nil_behind_takesLine {byte : UInt8} {rest after : Bytes} {piece : Piece}
    (leads : Piece.Leads byte rest piece) (split : byte :: rest = piece.bytes ++ after)
    (oneLine : lineFeed ∉ byte :: rest) (takes : piece.takesLine = true) : after = [] := by
  have whole := (leads.withReturn takes fun member => oneLine (List.mem_cons_of_mem _ member)).1
  rw [whole] at split
  exact List.self_eq_append_right.mp split

theorem cut_append_return {line : Bytes} (oneLine : lineFeed ∉ line) :
    cut (line ++ [carriageReturn]) = returnBehind (cut line) := by
  induction line using cut_induction with
  | nil =>
      have isBlank : ∀ byte ∈ [carriageReturn], ByteClass.of byte = .blank := by
        intro byte member
        rw [List.mem_singleton.mp member]
        rfl
      have single := cut_blanks_append isBlank []
      rw [cut_nil]
      simpa [returnBehind] using single
  | cons byte rest after split ih =>
      have notBreak : byte ≠ lineFeed := fun same => oneLine (same ▸ List.mem_cons_self)
      have leads := Piece.leads_first byte rest
      rw [cut_cons split, returnBehind]
      generalize Piece.first byte rest = piece at leads split
      split
      · rename_i takes
        obtain rfl := eq_nil_behind_takesLine leads split oneLine takes
        obtain ⟨whole, again⟩ := leads.withReturn takes fun member =>
          oneLine (List.mem_cons_of_mem _ member)
        have splitLonger : byte :: (rest ++ [carriageReturn]) = piece.withReturn.bytes ++ [] := by
          rw [Piece.bytes_withReturn takes, whole, List.append_nil, List.cons_append]
        rw [again.eq_first] at splitLonger ⊢
        rw [List.cons_append, cut_cons splitLonger]
      · rename_i notTakes
        have again := leads.append_return (by simpa using notTakes) notBreak
        have oneLineBehind : lineFeed ∉ after := fun member =>
          oneLine (split ▸ List.mem_append_right _ member)
        have splitLonger : byte :: (rest ++ [carriageReturn]) =
            piece.bytes ++ (after ++ [carriageReturn]) := by
          rw [← List.append_assoc, ← split, List.cons_append]
        rw [again.eq_first] at splitLonger ⊢
        rw [List.cons_append, cut_cons splitLonger, ih oneLineBehind]

/-! ## The tokens of a line with a carriage return -/

theorem lineWidth_append_return {line : Bytes} (oneLine : lineFeed ∉ line) :
    lineWidth (line ++ [carriageReturn]) = lineWidth line + 1 := by
  have sameDropped (pieces : List Piece) :
      (returnBehind pieces).countP Piece.isDropped = pieces.countP Piece.isDropped := by
    induction pieces with
    | nil => rfl
    | cons piece pieces ih =>
        rw [returnBehind]
        split
        · rw [List.countP_cons, List.countP_cons, Piece.isDropped_withReturn]
        · rw [List.countP_cons, List.countP_cons, ih]
  have bound : droppedCount line ≤ line.length := by
    obtain ⟨-, -, -, column⟩ := advanceAll_unbroken
      (fun _ member => ne_lineBreak_of_mem_cut oneLine member) .start
    rw [flatMap_bytes_cut, ← droppedCount, show Cursor.start.column = 0 from rfl] at column
    omega
  rw [lineWidth, lineWidth, droppedCount, cut_append_return oneLine, sameDropped, ← droppedCount,
    List.length_append, List.length_singleton]
  omega

/-- The token of a comment or an open string, if there is one, in front of a newline token. -/
theorem withReturns_takesLine {piece : Piece} (takes : piece.takesLine = true)
    {newline : Token} (isNewline : newline.kind = .newline) (cursor : Cursor)
    (later : List Token) :
    withReturns (PlacedPiece.tokens { cursor, piece } ++ newline :: later) =
      PlacedPiece.tokens { cursor, piece := piece.withReturn } ++
        withReturns (newline :: later) := by
  cases piece with
  | lexeme kind text bytes =>
      have notNewline : kind ≠ .newline := by
        rintro rfl
        cases takes
      have closes : isOpenString kind text = true ∧
          (newline :: later).head?.map Token.kind = some .newline :=
        ⟨takes, congrArg some isNewline⟩
      have width : cursor.column + bytes.length + 1 =
          cursor.column + (bytes ++ [carriageReturn]).length := by
        rw [List.length_append, List.length_singleton, Nat.add_assoc]
      simp only [PlacedPiece.tokens, Piece.withReturn, List.cons_append, List.nil_append]
      rw [withReturns, Token.withReturn, if_neg notNewline, if_pos closes, ← width]
  | comment bytes => rfl
  | lineBreak | blank | dropped => cases takes

/-- The tokens of any other piece of a line do not change. -/
theorem Piece.Leads.stays_of_mem_tokens {byte : UInt8} {rest : Bytes} {piece : Piece}
    (leads : Piece.Leads byte rest piece) (stays : piece.takesLine = false)
    (notBreak : byte ≠ lineFeed) (cursor : Cursor) :
    ∀ token ∈ PlacedPiece.tokens { cursor, piece },
      token.kind ≠ .newline ∧ isOpenString token.kind token.text = false := by
  intro token member
  cases piece with
  | lexeme kind text bytes =>
      rw [List.mem_singleton.mp member]
      exact ⟨leads.kind_of_lexeme.2, stays⟩
  | lineBreak margin => exact absurd List.mem_cons_self (leads.lineFeed_not_mem notBreak)
  | comment bytes => cases stays
  | blank other => exact absurd member List.not_mem_nil
  | dropped other => exact absurd member List.not_mem_nil

/-- The tokens of a line in front of its newline token. -/
theorem withReturns_tokensFrom {line : Bytes} (oneLine : lineFeed ∉ line) (cursor : Cursor)
    {newline : Token} (isNewline : newline.kind = .newline) (later : List Token) :
    withReturns (tokensFrom cursor (cut line) ++ newline :: later) =
      tokensFrom cursor (cut (line ++ [carriageReturn])) ++ withReturns (newline :: later) := by
  rw [cut_append_return oneLine]
  induction line using cut_induction generalizing cursor with
  | nil => simp [returnBehind, PlacedPiece.tokens]
  | cons byte rest after split ih =>
      have notBreak : byte ≠ lineFeed := fun same => oneLine (same ▸ List.mem_cons_self)
      have leads := Piece.leads_first byte rest
      have behind := ih fun member => oneLine (split ▸ List.mem_append_right _ member)
      rw [cut_cons split, returnBehind]
      generalize Piece.first byte rest = piece at leads split behind ⊢
      split
      · rename_i takes
        obtain rfl := eq_nil_behind_takesLine leads split oneLine takes
        rw [cut_nil, tokensFrom_cons, tokensFrom_cons, tokensFrom_nil, List.append_nil,
          tokensFrom_nil, List.append_nil, withReturns_takesLine takes isNewline]
      · rename_i notTakes
        have stay := leads.stays_of_mem_tokens (by simpa using notTakes) notBreak cursor
        rw [tokensFrom_cons, tokensFrom_cons, List.append_assoc, withReturns_append stay, behind,
          List.append_assoc]

/-! ## Line by line -/

theorem crlf_of_oneLine {line : Bytes} (oneLine : lineFeed ∉ line) : crlf line = line := by
  induction line with
  | nil => rfl
  | cons byte line ih =>
      rw [List.mem_cons, not_or] at oneLine
      rw [crlf, List.flatMap_cons, if_neg (Ne.symm oneLine.1), ← crlf, ih oneLine.2]
      rfl

theorem crlf_append_lineFeed {line : Bytes} (oneLine : lineFeed ∉ line) (rest : Bytes) :
    crlf (line ++ lineFeed :: rest) = line ++ [carriageReturn] ++ lineFeed :: crlf rest := by
  rw [crlf, List.flatMap_append, ← crlf, crlf_of_oneLine oneLine, List.flatMap_cons, if_pos rfl,
    ← crlf, List.append_assoc]
  rfl

/-- A text stays a text, and nothing else becomes one. -/
theorem isUtf8_crlf (source : Bytes) : isUtf8 (crlf source) = isUtf8 source := by
  have breakIsAscii : lineFeed < 128 := by decide
  have returnIsAscii : carriageReturn < 128 := by decide
  induction source using line_induction with
  | last line oneLine => rw [crlf_of_oneLine oneLine]
  | cons line rest oneLine ih =>
      rw [crlf_append_lineFeed oneLine, Bool.eq_iff_iff]
      constructor
      · intro isText
        obtain ⟨isLine, isRest⟩ := isUtf8_split breakIsAscii isText
        exact isUtf8_append (isUtf8_split returnIsAscii isLine).1
          (isUtf8_append (isUtf8_singleton breakIsAscii) (ih ▸ isRest))
      · intro isText
        obtain ⟨isLine, isRest⟩ := isUtf8_split breakIsAscii isText
        exact isUtf8_append (isUtf8_append isLine (isUtf8_singleton returnIsAscii))
          (isUtf8_append (isUtf8_singleton breakIsAscii) (ih.trans isRest))

theorem lineLevel_append_return (line : Bytes) :
    lineLevel (line ++ [carriageReturn]) = lineLevel line := by
  rw [lineLevel, takeWhile_append_stop (by decide), ← lineLevel]

/-- Lines with a carriage return at the end of all but the last. -/
def returnLines : List Bytes → List Bytes
  | [] => []
  | [line] => [line]
  | line :: next :: later => (line ++ [carriageReturn]) :: returnLines (next :: later)

theorem sourceLines_crlf (source : Bytes) :
    sourceLines (crlf source) = returnLines (sourceLines source) := by
  induction source using line_induction with
  | last line oneLine => rw [crlf_of_oneLine oneLine, sourceLines_last oneLine, returnLines]
  | cons line rest oneLine ih =>
      obtain ⟨next, later, lines⟩ := List.exists_cons_of_ne_nil (sourceLines_ne_nil rest)
      rw [crlf_append_lineFeed oneLine, sourceLines_cons (lineFeed_not_mem_append_return oneLine),
        ih, sourceLines_cons oneLine, lines, returnLines]

/-- The first of several lines keeps its level. -/
theorem exists_returnLines_cons (line : Bytes) (later : List Bytes) :
    ∃ again others, returnLines (line :: later) = again :: others ∧
      lineLevel again = lineLevel line := by
  cases later with
  | nil => exact ⟨line, [], rfl, rfl⟩
  | cons next later => exact ⟨_, _, rfl, lineLevel_append_return line⟩

theorem tokensOfLines_returnLines {first : Bytes} {later : List Bytes}
    (oneLine : ∀ line ∈ first :: later, lineFeed ∉ line) (number level : Nat) :
    tokensOfLines number level (returnLines (first :: later)) =
      withReturns (tokensOfLines number level (first :: later)) := by
  induction later generalizing first number level with
  | nil =>
      refine (withReturns_eq_self fun token member => ?_).symm
      obtain ⟨original, isToken, rfl⟩ := List.mem_map.mp member
      exact (kind_of_mem_scan_line (oneLine first List.mem_cons_self) isToken).2
  | cons next later ih =>
      have firstLine := oneLine first List.mem_cons_self
      have behind := ih (fun line member => oneLine line (List.mem_cons_of_mem _ member))
        (number + 1) (lineLevel next)
      obtain ⟨again, others, isAgain, sameLevel⟩ := exists_returnLines_cons next later
      have atHead : ({ Cursor.start with line := number } : Cursor).column = 0 := rfl
      rw [isAgain] at behind
      rw [returnLines, isAgain, tokensOfLines, sameLevel, behind, tokensOfLines,
        ← scan_line_eq firstLine atHead, withReturns_tokensFrom firstLine _ rfl,
        ← scan_line_eq (lineFeed_not_mem_append_return firstLine) atHead, withReturns,
        withReturns_append fun token => same_of_mem_layoutTokens,
        lineWidth_append_return firstLine]
      rfl

/-- With a carriage return in front of every line feed a source has the tokens that it has,
but every newline token stands one column further to the right, and an open string in front
of a newline token ends in the carriage return.  The level at the end is the same. -/
theorem scan_crlf (source : Bytes) :
    isUtf8 (crlf source) = isUtf8 source ∧
      scan (crlf source) = withReturns (scan source) ∧
      (Scanner.new (crlf source)).tokenize.indentLevel =
        (Scanner.new source).tokenize.indentLevel := by
  have tokens : scan (crlf source) = withReturns (scan source) := by
    obtain ⟨first, later, lines⟩ := List.exists_cons_of_ne_nil (sourceLines_ne_nil source)
    have oneLine : ∀ line ∈ first :: later, lineFeed ∉ line := fun line member =>
      lineFeed_not_mem_of_mem_sourceLines (lines ▸ member)
    rw [scan_eq_tokensOfLines, sourceLines_crlf, scan_eq_tokensOfLines, lines,
      tokensOfLines_returnLines oneLine]
  refine ⟨isUtf8_crlf source, tokens, ?_⟩
  -- The tokens settle the level, and they do it by their kinds.
  have sameCount (kind : Kind) : (scan (crlf source)).countP (fun token => token.kind = kind) =
      (scan source).countP fun token => token.kind = kind := by
    have counted (tokens : List Token) : tokens.countP (fun token => token.kind = kind) =
        (tokens.map Token.kind).countP (fun other => other = kind) := by
      rw [List.countP_map]
      rfl
    rw [counted, tokens, map_kind_withReturns, ← counted]
  have level := (leadsBetween_scan source).level_eq
  have again := (leadsBetween_scan (crlf source)).level_eq
  rw [indents, dedents, sameCount, sameCount] at again
  exact Nat.add_right_cancel (again.symm.trans level)

end LayoutLexer
