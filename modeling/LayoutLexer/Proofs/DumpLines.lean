import LayoutLexer.Proofs.DumpReading

/-!
# The lines of a dump

A dump has as many lines as its source, and each of its lines holds the printed tokens of
the line of the source with that number.  Texts are printed without escapes, so this rests
on there being no line feed in any of them.  The line of a token is the number of newline
tokens in front of it: the tokens of a source go down line by line, and only a newline token
ends a line.
-/

namespace LayoutLexer

/-! ## Tokens that go down from line to line -/

/-- Tokens that lead from one line down to another.  Each of them stands on the line come
to, and a newline token ends that line. -/
inductive GoesDown : Nat → Nat → List Token → Prop
  | nil (line : Nat) : GoesDown line line []
  | within {line last : Nat} {token : Token} {tokens : List Token} : token.line = line →
      token.kind ≠ .newline → GoesDown line last tokens → GoesDown line last (token :: tokens)
  | newline {line last : Nat} {token : Token} {tokens : List Token} : token.line = line →
      token.kind = .newline → GoesDown (line + 1) last tokens →
      GoesDown line last (token :: tokens)

/-- The number of newline tokens. -/
def newlines (tokens : List Token) : Nat :=
  tokens.countP fun token => token.kind = .newline

theorem newlines_cons_newline {token : Token} (isNewline : token.kind = .newline)
    (tokens : List Token) : newlines (token :: tokens) = newlines tokens + 1 :=
  List.countP_cons_of_pos (decide_eq_true isNewline)

theorem newlines_cons_within {token : Token} (notNewline : token.kind ≠ .newline)
    (tokens : List Token) : newlines (token :: tokens) = newlines tokens :=
  List.countP_cons_of_neg (by simpa using notNewline)

namespace GoesDown

variable {first between last : Nat} {tokens others : List Token}

theorem append (goes : GoesDown first between tokens) (goesOn : GoesDown between last others) :
    GoesDown first last (tokens ++ others) := by
  induction goes with
  | nil line => exact goesOn
  | within onLine notNewline _ ih => exact .within onLine notNewline (ih goesOn)
  | newline onLine isNewline _ ih => exact .newline onLine isNewline (ih goesOn)

theorem of_line {line : Nat}
    (onLine : ∀ token ∈ tokens, token.line = line ∧ token.kind ≠ .newline) :
    GoesDown line line tokens := by
  induction tokens with
  | nil => exact .nil line
  | cons token tokens ih =>
      obtain ⟨isLine, notNewline⟩ := onLine token List.mem_cons_self
      exact .within isLine notNewline
        (ih fun other member => onLine other (List.mem_cons_of_mem _ member))

theorem last_eq (goes : GoesDown first last tokens) : last = first + newlines tokens := by
  induction goes with
  | nil line => rfl
  | within _ notNewline _ ih => rw [newlines_cons_within notNewline, ih]
  | newline _ isNewline _ ih => rw [newlines_cons_newline isNewline, ih]; omega

theorem le_line (goes : GoesDown first last tokens) {token : Token} (member : token ∈ tokens) :
    first ≤ token.line := by
  induction goes with
  | nil line => exact absurd member List.not_mem_nil
  | within onLine _ _ ih =>
      rcases List.mem_cons.mp member with rfl | later
      · exact Nat.le_of_eq onLine.symm
      · exact ih later
  | newline onLine _ _ ih =>
      rcases List.mem_cons.mp member with rfl | later
      · exact Nat.le_of_eq onLine.symm
      · exact Nat.le_of_succ_le (ih later)

theorem line_eq (goes : GoesDown first last tokens) {before after : List Token} {token : Token}
    (split : tokens = before ++ token :: after) : token.line = first + newlines before := by
  induction goes generalizing before with
  | nil line => simp at split
  | within onLine notNewline _ ih =>
      cases before with
      | nil => exact (List.cons.inj split).1 ▸ onLine
      | cons other before =>
          obtain ⟨rfl, behind⟩ := List.cons.inj split
          rw [newlines_cons_within notNewline, ih behind]
  | newline onLine isNewline _ ih =>
      cases before with
      | nil => exact (List.cons.inj split).1 ▸ onLine
      | cons other before =>
          obtain ⟨rfl, behind⟩ := List.cons.inj split
          rw [newlines_cons_newline isNewline, ih behind]
          omega

end GoesDown

/-! ## The tokens of a source go down -/

theorem PlacedPiece.goesDown_tokens {byte : UInt8} {rest : Bytes} {piece : Piece}
    (leads : Piece.Leads byte rest piece) (cursor : Cursor) :
    GoesDown cursor.line (cursor.advance piece).line (PlacedPiece.tokens { cursor, piece }) := by
  cases piece with
  | lexeme kind text bytes => exact .within rfl leads.kind_of_lexeme.2 (.nil cursor.line)
  | lineBreak margin =>
      refine .newline rfl rfl (.of_line fun token member => ?_)
      obtain ⟨sameLine, notNewline, -⟩ := of_mem_layoutTokens member
      exact ⟨sameLine, notNewline⟩
  | comment bytes => exact .nil cursor.line
  | blank other => exact .nil cursor.line
  | dropped other => exact .nil cursor.line

theorem goesDown_tokensFrom (cursor : Cursor) (source : Bytes) :
    GoesDown cursor.line (cursor.line + source.count lineFeed)
      (tokensFrom cursor (cut source)) := by
  rw [← line_advanceAll_cut]
  induction source using cut_induction generalizing cursor with
  | nil =>
      rw [cut_nil]
      exact .nil cursor.line
  | cons byte rest after split ih =>
      rw [cut_cons split, tokensFrom_cons, Cursor.advanceAll_cons]
      exact (PlacedPiece.goesDown_tokens (Piece.leads_first byte rest) cursor).append (ih _)

theorem goesDown_scan (source : Bytes) : GoesDown 0 (source.count lineFeed) (scan source) := by
  have goes := goesDown_tokensFrom .start source
  rwa [show Cursor.start.line = 0 from rfl, Nat.zero_add] at goes

theorem newlines_scan (source : Bytes) : newlines (scan source) = source.count lineFeed := by
  have last := (goesDown_scan source).last_eq
  rw [last, Nat.zero_add]

/-! ## Printed tokens have no line feed -/

theorem lineFeed_not_mem_text {source text : Bytes} {token : Token} (member : token ∈ scan source)
    (hasText : token.text = some text) : lineFeed ∉ text := by
  obtain ⟨before, piece, after, parts, isToken⟩ := exists_piece_of_mem_tokensFrom member
  obtain ⟨byte, rest, -, leads⟩ := leads_of_cut_eq_append parts
  cases piece with
  | lexeme kind lexemeText bytes =>
      have notBreak : byte ≠ lineFeed := by
        rintro rfl
        cases leads.eq_first
      have oneLine : lineFeed ∉ bytes := leads.lineFeed_not_mem notBreak
      obtain rfl := List.mem_singleton.mp isToken
      rw [Piece.text_of_first_eq_lexeme leads.eq_first.symm] at hasText
      split at hasText
      · exact Option.some.inj hasText ▸ oneLine
      · cases hasText
  | lineBreak margin =>
      rcases List.mem_cons.mp isToken with rfl | isMark
      · cases hasText
      · obtain ⟨-, -, -, noText⟩ := of_mem_layoutTokens isMark
        rw [noText] at hasText
        cases hasText
  | comment bytes => exact absurd isToken List.not_mem_nil
  | blank other => exact absurd isToken List.not_mem_nil
  | dropped other => exact absurd isToken List.not_mem_nil

theorem Kind.lineFeed_not_mem_nameBytes (kind : Kind) : lineFeed ∉ kind.nameBytes := by
  have absent : ∀ name ∈ all.map nameBytes, lineFeed ∉ name := by decide +kernel
  exact absent _ (List.mem_map_of_mem kind.mem_all)

theorem Token.lineFeed_not_mem_dumped {token : Token}
    (oneLine : ∀ text, token.text = some text → lineFeed ∉ text) : lineFeed ∉ token.dumped := by
  have bracket : lineFeed ∉ utf8 "(" := by decide
  have noBreakText : lineFeed ∉ printedText token.text := by
    cases hasText : token.text with
    | none => exact List.not_mem_nil
    | some text =>
        rw [printedText, List.mem_cons, not_or]
        exact ⟨by decide, oneLine text hasText⟩
  rw [dumped_eq]
  simp only [List.mem_append, List.mem_singleton, not_or]
  exact ⟨bracket, token.kind.lineFeed_not_mem_nameBytes, noBreakText,
    token.lineFeed_not_mem_printedPositions, by decide⟩

/-! ## A dump line by line -/

/-- What a dump holds of the tokens on a line. -/
def dumpedLine (tokens : List Token) (line : Nat) : Bytes :=
  (tokens.filter fun token => token.line = line).flatMap Token.dumped

theorem dumpedLine_cons_same {token : Token} {line : Nat} (onLine : token.line = line)
    (tokens : List Token) :
    dumpedLine (token :: tokens) line = token.dumped ++ dumpedLine tokens line := by
  rw [dumpedLine, List.filter_cons_of_pos (by simpa using onLine), List.flatMap_cons]
  rfl

theorem dumpedLine_cons_other {token : Token} {line : Nat} (offLine : token.line ≠ line)
    (tokens : List Token) : dumpedLine (token :: tokens) line = dumpedLine tokens line := by
  rw [dumpedLine, List.filter_cons_of_neg (by simpa using offLine)]
  rfl

theorem dumpedLine_eq_nil {tokens : List Token} {line : Nat}
    (offLine : ∀ token ∈ tokens, token.line ≠ line) : dumpedLine tokens line = [] := by
  have none : tokens.filter (fun token => token.line = line) = [] := by
    simpa [List.filter_eq_nil_iff] using offLine
  rw [dumpedLine, none]
  rfl

/-- Lines behind the first token have nothing of it. -/
theorem map_dumpedLine_behind {token : Token} {line : Nat} (onLine : token.line = line)
    (tokens : List Token) (count : Nat) :
    (List.range' (line + 1) count).map (dumpedLine (token :: tokens)) =
      (List.range' (line + 1) count).map (dumpedLine tokens) := by
  refine List.map_congr_left fun number member => dumpedLine_cons_other ?_ tokens
  have bound := List.left_le_of_mem_range' member
  omega

/-- The dump of tokens that go down, divided at its line feeds, with a beginning of its first
line in front of it. -/
theorem GoesDown.splitOn_dump {first last : Nat} {tokens : List Token}
    (goes : GoesDown first last tokens) (oneLine : ∀ token ∈ tokens, lineFeed ∉ token.dumped)
    {front : Bytes} (frontLine : lineFeed ∉ front) :
    (front ++ dump tokens).splitOn lineFeed =
      (front ++ dumpedLine tokens first) ::
        (List.range' (first + 1) (newlines tokens)).map (dumpedLine tokens) := by
  -- The tokens of a line grow into the beginning until a newline token closes the line.
  induction goes generalizing front with
  | nil line =>
      rw [dump, List.flatMap_nil, dumpedLine_eq_nil (by simp), List.append_nil]
      exact List.splitOn_eq_singleton frontLine
  | @within line last token tokens onLine notNewline _ ih =>
      have tokenLine := oneLine token List.mem_cons_self
      have longer : lineFeed ∉ front ++ token.dumped := by
        rw [List.mem_append, not_or]
        exact ⟨frontLine, tokenLine⟩
      have here : dump (token :: tokens) = token.dumped ++ dump tokens := by
        rw [dump, List.flatMap_cons, if_neg notNewline, List.append_nil]
        rfl
      rw [here, ← List.append_assoc,
        ih (fun other member => oneLine other (List.mem_cons_of_mem _ member)) longer,
        dumpedLine_cons_same onLine, newlines_cons_within notNewline,
        map_dumpedLine_behind onLine, List.append_assoc]
  | @newline line last token tokens onLine isNewline goes ih =>
      have tokenLine := oneLine token List.mem_cons_self
      have closed : lineFeed ∉ front ++ token.dumped := by
        rw [List.mem_append, not_or]
        exact ⟨frontLine, tokenLine⟩
      have here : dump (token :: tokens) = token.dumped ++ lineFeed :: dump tokens := by
        rw [dump, List.flatMap_cons, if_pos isNewline, List.append_assoc]
        rfl
      have noneBehind : dumpedLine tokens line = [] := by
        refine dumpedLine_eq_nil fun other member => ?_
        have below := goes.le_line member
        omega
      have behind := ih (fun other member => oneLine other (List.mem_cons_of_mem _ member))
        List.not_mem_nil
      rw [List.nil_append, List.nil_append, ← List.map_cons, ← List.range'_succ] at behind
      rw [here, ← List.append_assoc, List.splitOn_append_cons_self_of_not_mem closed, behind,
        dumpedLine_cons_same onLine, noneBehind, List.append_nil,
        newlines_cons_newline isNewline, map_dumpedLine_behind onLine]

/-- A dump has a line for every line of its source, and that line holds the tokens on it,
printed one behind the other with a space behind each.  The line of a token is the number of
newline tokens in front of it, and a source has a line of a given number as long as there are
that many newline tokens. -/
theorem dump_line_by_line (source : Bytes) :
    ((dump (scan source)).count lineFeed = source.count lineFeed ∧
      (dump (scan source)).splitOn lineFeed =
        (List.range (source.count lineFeed + 1)).map fun number =>
          ((scan source).filter fun token => token.line = number).flatMap fun token =>
            token.render ++ [space]) ∧
    (∀ before token after, scan source = before ++ token :: after →
      token.line = before.countP fun other => other.kind = .newline) ∧
    ∀ number, (getLine source number).isSome ↔
      number ≤ (scan source).countP fun token => token.kind = .newline := by
  have goes := goesDown_scan source
  have lines : (dump (scan source)).splitOn lineFeed =
      (List.range (source.count lineFeed + 1)).map (dumpedLine (scan source)) := by
    have divided := goes.splitOn_dump
      (fun token member => Token.lineFeed_not_mem_dumped fun text hasText =>
        lineFeed_not_mem_text member hasText) List.not_mem_nil
    rwa [List.nil_append, List.nil_append, ← List.map_cons, ← List.range'_succ,
      ← List.range_eq_range', newlines_scan] at divided
  refine ⟨⟨?_, lines⟩, fun before token after split => ?_, fun number => ?_⟩
  · have count := congrArg List.length lines
    rw [show List.splitOn lineFeed _ = sourceLines _ from rfl, length_sourceLines,
      List.length_map, List.length_range] at count
    exact Nat.succ.inj count
  · rw [goes.line_eq split, Nat.zero_add]
    rfl
  · change _ ↔ number ≤ newlines (scan source)
    rw [newlines_scan, getLine, Option.isSome_map, isSome_getElem?,
      length_sourceLines, Nat.lt_succ_iff]

end LayoutLexer
