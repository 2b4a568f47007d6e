import LayoutLexer.Proofs.MaximalRuns
import LayoutLexer.Proofs.TokenText

/-!
# Strings and comments hide each other

A quote opens a string, and a hash begins a comment, only where no string and no
comment that began further to the left on the line has taken it up.  What a symbol
search gives back is no exception.  So a quote opens or closes a string, or it is
inside a string of the other quote or inside a comment, and a hash is inside a string
or belongs to a comment.  A string goes to the next of its quotes on the line.  Where
there is none it takes up all that is left of the line, and only a newline token can
follow it.
-/

namespace LayoutLexer

def IsQuoteByte (byte : UInt8) : Prop :=
  byte = 34 ∨ byte = 39

/-- A byte that can open a string or begin a comment. -/
def IsMarkByte (byte : UInt8) : Prop :=
  IsQuoteByte byte ∨ byte = 35

instance (byte : UInt8) : Decidable (IsQuoteByte byte) :=
  inferInstanceAs (Decidable (_ ∨ _))

instance (byte : UInt8) : Decidable (IsMarkByte byte) :=
  inferInstanceAs (Decidable (_ ∨ _))

theorem class_of_isMarkByte : ∀ {byte : UInt8}, IsMarkByte byte →
    ByteClass.of byte = .quote ∨ ByteClass.of byte = .hash := by
  decide +kernel

theorem not_isMarkByte_of_class {byte : UInt8} {sort : ByteClass}
    (isClass : ByteClass.of byte = sort) (notMark : sort ≠ .quote ∧ sort ≠ .hash) :
    ¬ IsMarkByte byte := by
  subst isClass
  intro isMark
  exact (class_of_isMarkByte isMark).elim notMark.1 notMark.2

/-- Whether the bytes of a class can be in a token that no quote opens. -/
def ByteClass.isPlain : ByteClass → Bool
  | lineFeed | digit | letter | punctuation => true
  | blank | quote | hash | foreign => false

theorem not_isMarkByte_of_isPlain {byte : UInt8} (isPlain : (ByteClass.of byte).isPlain = true) :
    ¬ IsMarkByte byte := by
  intro isMark
  rcases class_of_isMarkByte isMark with isClass | isClass <;> rw [isClass] at isPlain <;>
    cases isPlain

theorem isPlain_of_isWord {byte : UInt8} (isByte : isWord byte = true) :
    (ByteClass.of byte).isPlain = true := by
  rw [isWord, Bool.or_eq_true, beq_iff_eq, beq_iff_eq] at isByte
  rcases isByte with isClass | isClass <;> rw [isClass] <;> rfl

theorem isPlain_of_isNumeric {byte : UInt8} (isByte : isNumeric byte = true) :
    (ByteClass.of byte).isPlain = true := by
  rw [isNumeric, Bool.or_eq_true, beq_iff_eq] at isByte
  rcases isByte with inWord | rfl
  · exact isPlain_of_isWord inWord
  · rfl

/-! ## Tokens that a quote opens -/

/-- A string token, or an unknown token that begins like one, with the quote that
opens it. -/
def Token.OpenedBy (token : Token) (quote : UInt8) : Prop :=
  IsQuoteByte quote ∧ (token.kind = .string ∨ token.kind = .unknown) ∧
    ∃ tail, token.text = some (quote :: tail)

/-- How far a token goes that a quote opens.  It has the given bytes behind its opening
quote, and it is closed exactly if its quote comes again on the line. -/
structure Token.GoesToQuote (token : Token) (quote : UInt8) (tail behind : Bytes) : Prop where
  opened : token.OpenedBy quote
  string_iff : token.kind = .string ↔
    quote ∈ (tail ++ behind).takeWhile fun byte => byte != lineFeed
  closed : token.kind = .string → ∃ inside, tail = inside ++ [quote] ∧ quote ∉ inside
  unclosed : token.kind ≠ .string → token.kind = .unknown ∧ quote ∉ tail ∧
    lineFeed ∉ tail ∧ ∀ next, behind.head? = some next → next = lineFeed

/-- A token that no quote opens.  It has neither quotes nor hashes nor foreign bytes. -/
structure Token.IsPlain (token : Token) (lexeme : Bytes) : Prop where
  not_string : token.kind ≠ .string
  not_opened : ∀ quote, ¬ token.OpenedBy quote
  plain : ∀ byte ∈ lexeme, (ByteClass.of byte).isPlain = true

variable {byte : UInt8} {rest behind : Bytes}

theorem Token.not_openedBy_of_text {token : Token} {first : UInt8} {tail : Bytes}
    (hasText : token.text = some (first :: tail)) (notQuote : ¬ IsQuoteByte first) (quote : UInt8) :
    ¬ token.OpenedBy quote := by
  rintro ⟨isQuote, -, others, isText⟩
  obtain ⟨rfl, -⟩ := List.cons.inj (Option.some.inj (hasText.symm.trans isText))
  exact notQuote isQuote

theorem Token.not_openedBy_of_none {token : Token} (noText : token.text = none) (quote : UInt8) :
    ¬ token.OpenedBy quote := by
  rintro ⟨-, -, tail, isText⟩
  rw [noText] at isText
  cases isText

theorem isPlain_of_mem_run {accepts : UInt8 → Bool}
    (plain : ∀ {other : UInt8}, accepts other = true → (ByteClass.of other).isPlain = true)
    (isFirst : (ByteClass.of byte).isPlain = true) :
    ∀ other ∈ byte :: rest.takeWhile accepts, (ByteClass.of other).isPlain = true := by
  intro other member
  rcases List.mem_cons.mp member with rfl | inRun
  · exact isFirst
  · exact plain (accepts_of_mem_takeWhile inRun)

/-- A token that is no newline is opened by a quote, or it has no quote and no hash. -/
theorem Piece.Leads.goesToQuote_or_plain {token : Token} {lexeme : Bytes}
    (leads : Piece.Leads byte rest (.lexeme token.kind token.text lexeme))
    (split : byte :: rest = lexeme ++ behind) :
    (∃ tail, lexeme = byte :: tail ∧ token.GoesToQuote byte tail behind) ∨
      token.IsPlain lexeme := by
  obtain ⟨kind, text, line, startColumn, endColumn⟩ := token
  dsimp only at leads
  cases leads with
  | number run isClass isRun =>
      have isFirst : (ByteClass.of byte).isPlain = true := isClass ▸ rfl
      exact .inr {
        not_string := (Piece.carriesText_numberKind _).2
        not_opened := Token.not_openedBy_of_text rfl (mt .inl (not_isMarkByte_of_isPlain isFirst))
        plain := isRun ▸ isPlain_of_mem_run isPlain_of_isNumeric isFirst }
  | keyword word isClass isRun =>
      have isFirst : (ByteClass.of byte).isPlain = true := isClass ▸ rfl
      exact .inr {
        not_string := Kind.noConfusion
        not_opened := Token.not_openedBy_of_none rfl
        plain := isRun ▸ isPlain_of_mem_run isPlain_of_isWord isFirst }
  | identifier run isClass isRun notKeyword =>
      have isFirst : (ByteClass.of byte).isPlain = true := isClass ▸ rfl
      exact .inr {
        not_string := Kind.noConfusion
        not_opened := Token.not_openedBy_of_text rfl (mt .inl (not_isMarkByte_of_isPlain isFirst))
        plain := isRun ▸ isPlain_of_mem_run isPlain_of_isWord isFirst }
  | string inside after isClass notQuote oneLine parts =>
      have notBreak : byte ≠ lineFeed := ne_lineFeed_of_class isClass ByteClass.noConfusion
      have onLine : ∀ other ∈ inside ++ [byte], (other != lineFeed) = true := by
        intro other member
        rw [List.mem_append, List.mem_singleton] at member
        rcases member with isInside | rfl
        · simpa using fun same : other = lineFeed => oneLine (same ▸ isInside)
        · simpa using notBreak
      refine .inl ⟨inside ++ [byte], rfl, {
        opened := ⟨class_eq_quote_iff.mp isClass, .inl rfl, _, rfl⟩
        string_iff := iff_of_true rfl ?_
        closed := fun _ => ⟨inside, rfl, notQuote⟩
        unclosed := fun notString => absurd rfl notString }⟩
      rw [List.takeWhile_append_of_pos onLine]
      exact List.mem_append_left _ (List.mem_append_right _ List.mem_cons_self)
  | openString inside after isClass notQuote oneLine parts ends =>
      have ends := Piece.head?_behind_open parts ends split
      have onLine : ∀ other ∈ inside, (other != lineFeed) = true := fun other member => by
        simpa using fun same : other = lineFeed => oneLine (same ▸ member)
      have line : (inside ++ behind).takeWhile (fun other => other != lineFeed) = inside :=
        takeWhile_run_append onLine fun next isNext => by simpa using ends next isNext
      exact .inl ⟨inside, rfl, {
        opened := ⟨class_eq_quote_iff.mp isClass, .inr rfl, _, rfl⟩
        string_iff := iff_of_false Kind.noConfusion (by rwa [line])
        closed := fun isString => nomatch isString
        unclosed := fun _ => ⟨rfl, notQuote, oneLine, ends⟩ }⟩
  | symbol sign isClass found =>
      exact .inr {
        not_string := Kind.noConfusion
        not_opened := Token.not_openedBy_of_none rfl
        plain := fun other member => (sign.class_of_mem_bytes other member) ▸ rfl }
  | sign isClass notFound =>
      have isFirst : (ByteClass.of byte).isPlain = true := isClass ▸ rfl
      exact .inr {
        not_string := Kind.noConfusion
        not_opened := Token.not_openedBy_of_text rfl (mt .inl (not_isMarkByte_of_isPlain isFirst))
        plain := fun _ member => List.mem_singleton.mp member ▸ isFirst }

/-! ## Quotes and hashes in tiles -/

namespace Tile

/-- Where a quote can stand in a tile: it opens a token, it closes a string, it is hidden
behind the other quote, or it is in a comment. -/
inductive QuoteAt (quote : UInt8) : Tile → Nat → Prop
  | opens {found : Token} {lexeme : Bytes} : found.OpenedBy quote →
      QuoteAt quote (.token found lexeme) 0
  | closes {found : Token} {inside : Bytes} : found.OpenedBy quote → found.kind = .string →
      QuoteAt quote (.token found (inside ++ [quote])) inside.length
  | hidden {found : Token} {lexeme : Bytes} {opener : UInt8} {index : Nat} :
      found.OpenedBy opener → opener ≠ quote → 0 < index →
      QuoteAt quote (.token found lexeme) index
  | inComment {bytes : Bytes} {index : Nat} : QuoteAt quote (.comment bytes) index

/-- Whether a tile is a comment or a token that a quote opens. -/
def Hides : Tile → Prop
  | token found _ => ∃ quote, found.OpenedBy quote
  | comment _ => True
  | blank _ | dropped _ => False

/-- What is required of a tile and the bytes behind it for strings and comments to hide
each other.  Quotes and hashes are only in comments and in tokens that a quote opens,
and there a quote has one of its places.  Every string token is opened by a quote, and
every token that is opened by one goes to its quote or to the end of the line. -/
structure HidesMarks (tile : Tile) (behind : Bytes) : Prop where
  marks : ∀ byte ∈ tile.bytes, IsMarkByte byte → tile.Hides
  quotes : ∀ index quote, tile.bytes[index]? = some quote → IsQuoteByte quote →
    tile.QuoteAt quote index
  strings : ∀ found lexeme, tile = .token found lexeme → found.kind = .string → tile.Hides
  opened : ∀ found lexeme quote, tile = .token found lexeme → found.OpenedBy quote →
    ∃ tail, lexeme = quote :: tail ∧ found.GoesToQuote quote tail behind

theorem HidesMarks.of_no_marks {tile : Tile} (noMarks : ∀ byte ∈ tile.bytes, ¬ IsMarkByte byte)
    (plain : ∀ found lexeme, tile = .token found lexeme → found.IsPlain lexeme) :
    tile.HidesMarks behind where
  marks := fun byte member isMark => absurd isMark (noMarks byte member)
  quotes := fun _ quote isByte isQuote =>
    absurd (.inl isQuote) (noMarks quote (List.mem_of_getElem? isByte))
  strings := fun found lexeme isToken isString =>
    absurd isString (plain found lexeme isToken).not_string
  opened := fun found lexeme quote isToken isOpened =>
    absurd isOpened ((plain found lexeme isToken).not_opened quote)

end Tile

/-- The quotes in a token that a quote opens. -/
theorem Token.GoesToQuote.quoteAt {found : Token} {quote other : UInt8} {tail : Bytes}
    (goes : found.GoesToQuote quote tail behind) {index : Nat}
    (isByte : (quote :: tail)[index]? = some other) :
    (Tile.token found (quote :: tail)).QuoteAt other index := by
  cases index with
  | zero => exact Option.some.inj isByte ▸ .opens goes.opened
  | succ index =>
      rw [List.getElem?_cons_succ] at isByte
      by_cases different : quote = other
      · subst different
        by_cases isString : found.kind = .string
        · -- Of its own quotes a string has only the one that closes it.
          obtain ⟨inside, rfl, notInside⟩ := goes.closed isString
          have bound := (List.getElem?_eq_some_iff.mp isByte).1
          rw [List.length_append, List.length_singleton] at bound
          by_cases before : index < inside.length
          · rw [List.getElem?_append_left before] at isByte
            exact absurd (List.mem_of_getElem? isByte) notInside
          · obtain rfl : index = inside.length := by omega
            have closes : (Tile.token found ((quote :: inside) ++ [quote])).QuoteAt quote
                (quote :: inside).length := .closes goes.opened isString
            exact closes
        · obtain ⟨-, notInside, -⟩ := goes.unclosed isString
          exact absurd (List.mem_of_getElem? isByte) notInside
      · exact .hidden goes.opened different (Nat.succ_pos index)

theorem Token.GoesToQuote.hidesMarks {found : Token} {quote : UInt8} {tail : Bytes}
    (goes : found.GoesToQuote quote tail behind) :
    (Tile.token found (quote :: tail)).HidesMarks behind where
  marks := fun _ _ _ => ⟨quote, goes.opened⟩
  quotes := fun _ _ isByte _ => goes.quoteAt isByte
  strings := fun _ _ _ _ => ⟨quote, goes.opened⟩
  opened := by
    rintro _ _ other ⟨⟩ ⟨-, -, others, isText⟩
    obtain ⟨-, -, bytes, sameText⟩ := goes.opened
    obtain ⟨rfl, -⟩ := List.cons.inj (Option.some.inj (sameText.symm.trans isText))
    exact ⟨tail, rfl, goes⟩

namespace Tile

theorem HidesMarks.of_plain {found : Token} {lexeme : Bytes}
    (isPlain : found.IsPlain lexeme) : (Tile.token found lexeme).HidesMarks behind :=
  .of_no_marks (fun byte member => not_isMarkByte_of_isPlain (isPlain.plain byte member))
    fun _ _ same => by cases same; exact isPlain

theorem HidesMarks.of_single {tile : Tile} (single : tile.bytes = [byte])
    (noToken : tile.token? = none) (notMark : ¬ IsMarkByte byte) : tile.HidesMarks behind := by
  refine .of_no_marks (fun other member => ?_) ?_
  · rw [single, List.mem_singleton] at member
    exact member ▸ notMark
  · rintro found lexeme rfl
    cases noToken

theorem Leads.hidesMarks {tile : Tile} (leads : Leads byte rest tile)
    (split : byte :: rest = tile.bytes ++ behind) : tile.HidesMarks behind := by
  cases leads with
  | lexeme leads =>
      rcases leads.goesToQuote_or_plain split with ⟨tail, rfl, goes⟩ | isPlain
      · exact goes.hidesMarks
      · exact .of_plain isPlain
  | newline isBreak isNewline =>
      refine .of_plain {
        not_string := isNewline ▸ Kind.noConfusion
        not_opened := ?_
        plain := fun _ member => List.mem_singleton.mp member ▸ rfl }
      rintro quote ⟨-, isString | isUnknown, -⟩
      · cases isNewline.symm.trans isString
      · cases isNewline.symm.trans isUnknown
  | comment leads =>
      exact {
        marks := fun _ _ _ => trivial
        quotes := fun _ _ _ _ => .inComment
        strings := fun _ _ isToken => nomatch isToken
        opened := fun _ _ _ isToken => nomatch isToken }
  | blank isClass => exact .of_single rfl rfl (not_isMarkByte_of_class isClass (by decide))
  | dropped isClass => exact .of_single rfl rfl (not_isMarkByte_of_class isClass (by decide))

end Tile

/-! ## What follows a string that is not closed -/

/-- An unknown token of a piece is its only token. -/
theorem PlacedPiece.eq_lexeme_of_tokens_eq {cursor : Cursor} {piece : Piece} {token : Token}
    {earlier more : List Token}
    (parts : PlacedPiece.tokens { cursor, piece } = earlier ++ token :: more)
    (isUnknown : token.kind = .unknown) :
    more = [] ∧ ∃ lexeme, piece = .lexeme token.kind token.text lexeme ∧
      (cursor.advance piece).line = token.line ∧
      (cursor.advance piece).column = token.endColumn := by
  cases piece with
  | lexeme kind text bytes =>
      rcases List.append_eq_singleton_iff.mp parts.symm with ⟨-, same⟩ | ⟨-, same⟩
      · obtain ⟨rfl, rfl⟩ := List.cons.inj same
        exact ⟨rfl, bytes, rfl, rfl, rfl⟩
      · cases same
  | lineBreak margin =>
      have member : token ∈ PlacedPiece.tokens { cursor, piece := .lineBreak margin } := by
        rw [parts]
        exact List.mem_append_right _ List.mem_cons_self
      rcases List.mem_cons.mp member with rfl | isMark
      · cases isUnknown
      · simp only [layoutTokens, List.mem_append, List.mem_replicate] at isMark
        rcases isMark with ⟨-, rfl⟩ | ⟨-, rfl⟩ <;> cases isUnknown
  | comment _ | blank _ | dropped _ => simp [PlacedPiece.tokens] at parts

/-- Only a newline token of the same line follows a string that is not closed. -/
theorem eq_newline_behind_unclosed {cursor : Cursor} {source : Bytes} {token next : Token}
    {earlier later : List Token} {quote : UInt8}
    (parts : tokensFrom cursor (cut source) = earlier ++ token :: next :: later)
    (isOpened : token.OpenedBy quote) (isUnknown : token.kind = .unknown) :
    next = newlineToken token.line token.endColumn := by
  induction source using cut_induction generalizing cursor earlier with
  | nil => simp at parts
  | cons byte rest behind split ih =>
      rw [cut_cons split, tokensFrom_cons] at parts
      rcases List.append_eq_append_iff.mp parts with ⟨more, -, behindEq⟩ | ⟨more, here, goesOn⟩
      · exact ih behindEq
      · cases more with
        | nil =>
            have atFront : tokensFrom _ (cut behind) = [] ++ token :: next :: later := goesOn.symm
            exact ih atFront
        | cons first more =>
            rw [List.cons_append, List.cons.injEq] at goesOn
            obtain ⟨rfl, behindEq⟩ := goesOn
            have leads := Piece.leads_first byte rest
            generalize Piece.first byte rest = piece at leads split here behindEq
            obtain ⟨rfl, lexeme, rfl, line, column⟩ :=
              PlacedPiece.eq_lexeme_of_tokens_eq here isUnknown
            rcases leads.goesToQuote_or_plain split with ⟨tail, rfl, goes⟩ | isPlain
            · have notString : token.kind ≠ .string := isUnknown ▸ Kind.noConfusion
              obtain ⟨-, -, -, ends⟩ := goes.unclosed notString
              rw [← line, ← column]
              refine eq_newline_of_head?_tokensFrom ends ?_
              rw [← List.nil_append (tokensFrom _ _), ← behindEq]
              rfl
            · exact absurd isOpened (isPlain.not_opened quote)

/-- A source is cut into the lexemes of its tokens in order, comments, single blanks and
single dropped bytes, and every byte belongs to exactly one of these.  Quotes and hashes
are only in comments and in tokens that a quote opens, that is in strings and in unknown
tokens of which only a newline token of the same line is behind.  Such a token is a string
and ends with the next of its quotes if there is one on the line, and otherwise it is
unknown and takes up what is left of the line.  A quote opens a token, closes a string, or
is hidden behind the other quote or in a comment. -/
theorem strings_and_comments_hide_marks (source : Bytes) :
    (∃ tiles : List Tile,
      tiles.flatMap Tile.bytes = source ∧
      tiles.filterMap Tile.token? =
        ((scan source).filter fun token => !token.kind.isSynthetic) ∧
      (∀ offset byte, source[offset]? = some byte →
        ∃! before, ∃ tile after,
          tiles = before ++ tile :: after ∧ Tile.Holds before tile offset byte) ∧
      ∀ before tile after, tiles = before ++ tile :: after →
        tile.Fits before after ∧ tile.HidesMarks (Tile.bytesOf after)) ∧
    ∀ earlier token next later quote, scan source = earlier ++ token :: next :: later →
      token.OpenedBy quote → token.kind = .unknown →
        next = newlineToken token.line token.endColumn := by
  refine ⟨⟨tilesFrom .start (cut source), bytesOf_tilesFrom _ source,
    filterMap_token?_tilesFrom _ source, fun offset byte isByte => ?_,
    fun before tile after parts => ⟨?_, ?_⟩⟩, fun earlier token next later quote parts => ?_⟩
  · rw [← bytesOf_tilesFrom .start source] at isByte
    exact Tile.existsUnique_holds isByte
  · exact Tile.fits_of_allFit (allFit_tilesFrom .start source) parts
  · obtain ⟨byte, rest, split, leads⟩ := Tile.leads_of_tilesFrom_eq parts
    exact leads.hidesMarks split
  · exact eq_newline_behind_unclosed parts

end LayoutLexer
