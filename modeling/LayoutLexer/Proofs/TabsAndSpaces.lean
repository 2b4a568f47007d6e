import LayoutLexer.Scanner
import LayoutLexer.Proofs.CharacterBoundary
import LayoutLexer.Proofs.LineTokens

/-!
# Tabs count as spaces

A tab belongs to the class of the space and is part of a margin like a space, so either may stand
for the other anywhere.  Words, numbers and symbols hold neither, and in margins, between tokens
and in comments they leave no trace.  Only the texts of strings, closed or not, show which of the
two it was.

It makes no difference whether tabs are replaced before a source is cut or afterwards in its
pieces.  The cursor moves by the lengths of pieces, and these are not changed.
-/

namespace LayoutLexer

/-- A byte with a space for a tab. -/
def untab (byte : UInt8) : UInt8 :=
  if byte = tab then space else byte

/-- A text with a space for every tab. -/
def untabbed (text : Bytes) : Bytes :=
  text.map untab

def Token.untabbed (token : Token) : Token :=
  { token with text := token.text.map LayoutLexer.untabbed }

/-! ## Bytes -/

theorem class_untab : ∀ byte : UInt8, ByteClass.of (untab byte) = ByteClass.of byte := by
  decide +kernel

theorem isMargin_untab : ∀ byte : UInt8, isMargin (untab byte) = isMargin byte := by
  decide +kernel

theorem isNumeric_untab : ∀ byte : UInt8, isNumeric (untab byte) = isNumeric byte := by
  decide +kernel

theorem isPunctuation_untab :
    ∀ byte : UInt8, isPunctuation (untab byte) = isPunctuation byte := by
  decide +kernel

theorem isWord_untab (byte : UInt8) : isWord (untab byte) = isWord byte := by
  rw [isWord, isWord, class_untab]

theorem untab_of_ne {byte : UInt8} (notTab : byte ≠ tab) : untab byte = byte :=
  if_neg notTab

section

variable {byte : UInt8} {kind : ByteClass}

theorem untab_of_class (isKind : ByteClass.of byte = kind) (notBlank : kind ≠ .blank) :
    untab byte = byte := by
  have notTab : tab ≠ byte := ne_of_class isKind notBlank.symm
  exact untab_of_ne notTab.symm

/-- A byte that is no blank comes from itself alone. -/
theorem untab_eq_iff (isKind : ByteClass.of byte = kind) (notBlank : kind ≠ .blank)
    (other : UInt8) : untab other = byte ↔ other = byte := by
  have notTab : tab ≠ byte := ne_of_class isKind notBlank.symm
  have notSpace : space ≠ byte := ne_of_class isKind notBlank.symm
  unfold untab
  split
  · rename_i isTab
    rw [isTab]
    exact iff_of_false notSpace notTab
  · exact Iff.rfl

theorem mem_untabbed_iff (isKind : ByteClass.of byte = kind) (notBlank : kind ≠ .blank)
    (text : Bytes) : byte ∈ untabbed text ↔ byte ∈ text := by
  simp only [untabbed, List.mem_map, untab_eq_iff isKind notBlank, exists_eq_right]

theorem tab_not_mem_run (isKind : ByteClass.of byte = kind) (notBlank : kind ≠ .blank)
    {accepts : UInt8 → Bool} (stops : accepts tab = false) (rest : Bytes) :
    tab ∉ byte :: rest.takeWhile accepts := by
  rw [List.mem_cons, not_or]
  exact ⟨ne_of_class isKind notBlank.symm, not_mem_takeWhile stops rest⟩

end

@[simp]
theorem length_untabbed (text : Bytes) : (untabbed text).length = text.length :=
  List.length_map _

@[simp]
theorem untabbed_append (first second : Bytes) :
    untabbed (first ++ second) = untabbed first ++ untabbed second :=
  List.map_append

@[simp]
theorem untabbed_cons (byte : UInt8) (text : Bytes) :
    untabbed (byte :: text) = untab byte :: untabbed text :=
  rfl

theorem untabbed_eq_self {text : Bytes} (noTab : tab ∉ text) : untabbed text = text := by
  have same : ∀ byte ∈ text, untab byte = byte := by
    intro byte member
    exact untab_of_ne fun isTab => noTab (isTab ▸ member)
  rw [untabbed, List.map_congr_left same, List.map_id']

theorem takeWhile_untabbed {accepts : UInt8 → Bool}
    (same : ∀ byte, accepts (untab byte) = accepts byte) (text : Bytes) :
    (untabbed text).takeWhile accepts = untabbed (text.takeWhile accepts) := by
  have sameTest : accepts ∘ untab = accepts := funext same
  rw [untabbed, List.takeWhile_map, sameTest, untabbed]

/-- A run that tabs and spaces end is the same. -/
theorem takeWhile_untabbed_of_stop {accepts : UInt8 → Bool}
    (same : ∀ byte, accepts (untab byte) = accepts byte) (stops : accepts tab = false)
    (text : Bytes) : (untabbed text).takeWhile accepts = text.takeWhile accepts := by
  rw [takeWhile_untabbed same, untabbed_eq_self (not_mem_takeWhile stops text)]

/-! ## Pieces -/

/-- A piece with spaces for its tabs. -/
def Piece.untabbed : Piece → Piece
  | lexeme kind text bytes =>
    lexeme kind (text.map LayoutLexer.untabbed) (LayoutLexer.untabbed bytes)
  | lineBreak margin => lineBreak (LayoutLexer.untabbed margin)
  | comment bytes => comment (LayoutLexer.untabbed bytes)
  | blank byte => blank (untab byte)
  | dropped byte => dropped (untab byte)

theorem Piece.bytes_untabbed (piece : Piece) :
    piece.untabbed.bytes = LayoutLexer.untabbed piece.bytes := by
  cases piece <;> rfl

theorem Piece.lexeme_untabbed {kind : Kind} {text : Option Bytes} {bytes : Bytes}
    (isText : ∀ found ∈ text, found = bytes) (noTab : tab ∉ bytes) :
    (lexeme kind text bytes).untabbed = lexeme kind text bytes := by
  have same := untabbed_eq_self noTab
  cases text with
  | none => rw [untabbed, same, Option.map_none]
  | some found =>
      obtain rfl := isText found rfl
      rw [untabbed, Option.map_some, same]

/-- What leads a source leads it with spaces for the tabs in both. -/
theorem Piece.Leads.untabbed {byte : UInt8} {rest : Bytes} {piece : Piece}
    (leads : Leads byte rest piece) :
    Leads (untab byte) (LayoutLexer.untabbed rest) piece.untabbed := by
  have isLineFeed : ByteClass.of lineFeed = .lineFeed := rfl
  -- Runs and symbols hold no tab.  Margins, strings and comments may hold some, but end as before.
  cases leads with
  | lineBreak isBreak =>
      subst isBreak
      rw [Piece.untabbed, ← takeWhile_untabbed isMargin_untab]
      exact .lineBreak rfl
  | blank isClass => exact .blank ((class_untab byte).trans isClass)
  | number run isClass isRun =>
      subst isRun
      have noTab := tab_not_mem_run isClass ByteClass.noConfusion
        (by decide : isNumeric tab = false) rest
      rw [lexeme_untabbed (by simp) noTab, untab_of_class isClass ByteClass.noConfusion]
      exact .number _ isClass (takeWhile_untabbed_of_stop isNumeric_untab (by decide) rest).symm
  | keyword word isClass isRun =>
      have noTab := tab_not_mem_run isClass ByteClass.noConfusion
        (by decide : isWord tab = false) rest
      rw [lexeme_untabbed (by simp) (isRun ▸ noTab), untab_of_class isClass ByteClass.noConfusion]
      refine .keyword word isClass ?_
      rw [takeWhile_untabbed_of_stop isWord_untab (by decide), isRun]
  | identifier run isClass isRun notKeyword =>
      subst isRun
      have noTab := tab_not_mem_run isClass ByteClass.noConfusion
        (by decide : isWord tab = false) rest
      rw [lexeme_untabbed (by simp) noTab, untab_of_class isClass ByteClass.noConfusion]
      exact .identifier _ isClass
        (takeWhile_untabbed_of_stop isWord_untab (by decide) rest).symm notKeyword
  | string inside after isClass notQuote oneLine restEq =>
      have same := untab_of_class isClass ByteClass.noConfusion
      have whole : LayoutLexer.untabbed (byte :: (inside ++ [byte])) =
          byte :: (LayoutLexer.untabbed inside ++ [byte]) := by
        rw [untabbed_cons, untabbed_append, untabbed_cons, same]
        rfl
      rw [Piece.untabbed, Option.map_some, whole, same]
      refine .string _ (LayoutLexer.untabbed after) isClass ?_ ?_ ?_
      · rwa [mem_untabbed_iff isClass ByteClass.noConfusion]
      · rwa [mem_untabbed_iff isLineFeed ByteClass.noConfusion]
      · rw [restEq, untabbed_append, untabbed_cons, same]
  | openString inside after isClass notQuote oneLine restEq ends =>
      have same := untab_of_class isClass ByteClass.noConfusion
      rw [Piece.untabbed, Option.map_some, untabbed_cons, same]
      refine .openString _ (LayoutLexer.untabbed after) isClass ?_ ?_ ?_ ?_
      · rwa [mem_untabbed_iff isClass ByteClass.noConfusion]
      · rwa [mem_untabbed_iff isLineFeed ByteClass.noConfusion]
      · rw [restEq, untabbed_append]
      · intro next isNext
        rw [LayoutLexer.untabbed, List.head?_map, Option.map_eq_some_iff] at isNext
        obtain ⟨original, isOriginal, rfl⟩ := isNext
        rw [ends original isOriginal]
        rfl
  | comment run isClass isRun =>
      have sameTest : ∀ other, (untab other != lineFeed) = (other != lineFeed) := by
        intro other
        rw [Bool.eq_iff_iff, bne_iff_ne, bne_iff_ne, ne_eq, ne_eq,
          untab_eq_iff isLineFeed ByteClass.noConfusion]
      rw [Piece.untabbed, untabbed_cons, untab_of_class isClass ByteClass.noConfusion, isRun,
        ← takeWhile_untabbed sameTest]
      exact .comment _ isClass rfl
  | symbol sign isClass found =>
      have noTab : tab ∉ sign.bytes := by
        intro member
        exact ByteClass.noConfusion (sign.class_of_mem_bytes tab member)
      rw [lexeme_untabbed (by simp) noTab, untab_of_class isClass ByteClass.noConfusion]
      refine .symbol sign isClass ?_
      rwa [takeWhile_untabbed_of_stop isPunctuation_untab (by decide)]
  | sign isClass notFound =>
      have notTab : tab ≠ byte := ne_of_class isClass ByteClass.noConfusion
      have noTab : tab ∉ [byte] := by simpa using notTab
      rw [lexeme_untabbed (by simp) noTab, untab_of_class isClass ByteClass.noConfusion]
      refine .sign isClass ?_
      rwa [takeWhile_untabbed_of_stop isPunctuation_untab (by decide)]
  | dropped isClass => exact .dropped ((class_untab byte).trans isClass)

theorem cut_untabbed (source : Bytes) :
    cut (untabbed source) = (cut source).map Piece.untabbed := by
  induction source using cut_induction with
  | nil => rw [untabbed, List.map_nil, cut_nil, List.map_nil]
  | cons byte rest after split ih =>
      have first : (Piece.first byte rest).untabbed = Piece.first (untab byte) (untabbed rest) :=
        (Piece.leads_first byte rest).untabbed.eq_first
      have parts : untab byte :: untabbed rest =
          (Piece.first (untab byte) (untabbed rest)).bytes ++ untabbed after := by
        rw [← first, Piece.bytes_untabbed, ← untabbed_append, ← split, untabbed_cons]
      rw [untabbed_cons, cut_cons parts, ih, cut_cons split, List.map_cons, first]

/-! ## Tokens -/

theorem Cursor.advance_untabbed (cursor : Cursor) (piece : Piece) :
    cursor.advance piece.untabbed = cursor.advance piece := by
  cases piece <;> simp [advance, Piece.untabbed]

theorem map_untabbed_layoutTokens (line before after : Nat) :
    (layoutTokens line before after).map Token.untabbed = layoutTokens line before after := by
  simp [layoutTokens, Token.untabbed]

theorem PlacedPiece.tokens_untabbed (cursor : Cursor) (piece : Piece) :
    tokens { cursor, piece := piece.untabbed } =
      (tokens { cursor, piece }).map Token.untabbed := by
  cases piece with
  | lexeme kind text bytes => simp [tokens, Piece.untabbed, Token.untabbed]
  | lineBreak margin =>
      simp [tokens, next, Piece.untabbed, Token.untabbed, Cursor.advance,
        map_untabbed_layoutTokens]
  | _ => rfl

/-- Pieces with spaces for their tabs have the tokens with spaces for their tabs, and come
to the same place. -/
theorem tokensFrom_untabbed (cursor : Cursor) (pieces : List Piece) :
    tokensFrom cursor (pieces.map Piece.untabbed) =
        (tokensFrom cursor pieces).map Token.untabbed ∧
      cursor.advanceAll (pieces.map Piece.untabbed) = cursor.advanceAll pieces := by
  induction pieces generalizing cursor with
  | nil => exact ⟨rfl, rfl⟩
  | cons piece pieces ih =>
      obtain ⟨sameTokens, sameEnd⟩ := ih (cursor.advance piece)
      rw [List.map_cons, tokensFrom_cons, tokensFrom_cons, Cursor.advanceAll_cons,
        Cursor.advanceAll_cons, Cursor.advance_untabbed, PlacedPiece.tokens_untabbed,
        sameTokens, sameEnd, List.map_append]
      exact ⟨rfl, rfl⟩

theorem scan_untabbed (source : Bytes) :
    scan (untabbed source) = (scan source).map Token.untabbed ∧
      (Scanner.new (untabbed source)).tokenize.indentLevel =
        (Scanner.new source).tokenize.indentLevel := by
  obtain ⟨sameTokens, sameEnd⟩ := tokensFrom_untabbed .start (cut source)
  rw [← cut_untabbed] at sameTokens sameEnd
  exact ⟨sameTokens, congrArg Cursor.level sameEnd⟩

/-! ## Texts -/

/-- A text with a space for every tab. -/
def spacesForTabs (text : String) : String :=
  text.map fun char => if char = '\t' then ' ' else char

/-- In the encoding of a character the byte of the tab stands for the tab alone. -/
theorem untabbed_utf8EncodeChar (char : Char) :
    untabbed (String.utf8EncodeChar char) =
      String.utf8EncodeChar (if char = '\t' then ' ' else char) := by
  split
  · rename_i isTab
    rw [isTab]
    decide
  · rename_i notTab
    refine untabbed_eq_self fun member => notTab ?_
    rcases utf8EncodeChar_cases char with ⟨byte, -, isByte⟩ | outside
    · rw [isByte, List.mem_singleton] at member
      have same : encoded [char] = encoded ['\t'] := by
        rw [encoded_cons, isByte, ← member]
        rfl
      exact (List.cons.inj (encoded_injective same)).1
    · exact absurd (outside tab member) (by decide)

theorem utf8_spacesForTabs (text : String) : utf8 (spacesForTabs text) = untabbed (utf8 text) := by
  rw [utf8_eq_encoded, utf8_eq_encoded, spacesForTabs, String.toList_map]
  induction text.toList with
  | nil => rfl
  | cons char characters ih =>
      rw [List.map_cons, encoded_cons, ih, encoded_cons, untabbed_append, untabbed_utf8EncodeChar]

/-- Tabs and spaces can be exchanged.  A text with a space for every tab has the tokens of
the text, as many of them and at the same places, with a space for every tab in their texts,
and it ends at the same level. -/
theorem scan_spacesForTabs (text : String) :
    scan (utf8 (spacesForTabs text)) = (scan (utf8 text)).map Token.untabbed ∧
      (scan (utf8 (spacesForTabs text))).length = (scan (utf8 text)).length ∧
      (Scanner.new (utf8 (spacesForTabs text))).tokenize.indentLevel =
        (Scanner.new (utf8 text)).tokenize.indentLevel := by
  obtain ⟨sameTokens, sameLevel⟩ := scan_untabbed (utf8 text)
  rw [← utf8_spacesForTabs] at sameTokens sameLevel
  refine ⟨sameTokens, ?_, sameLevel⟩
  rw [sameTokens, List.length_map]

end LayoutLexer
