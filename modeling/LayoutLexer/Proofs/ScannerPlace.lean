import LayoutLexer.Proofs.ScannerSafety
import LayoutLexer.Proofs.SourceTiling
import LayoutLexer.Proofs.LevelChanges

/-!
# What a scanner knows between its steps

A scanner never looks back.  What it has to know about the bytes behind it stands in its fields:
the line is the number of line feeds, the start of the line is the offset behind the last one, and
the column counts the bytes of the line so far, except those that were dropped.  The level is that
of the line, and the marks of layout among its tokens add up to it.

All of this is one invariant.  A step over a line feed sets the fields anew, any other step stays
on its line, and only there are bytes dropped, one at a time.  So a scanner may come to stand inside
a character, but it has then dropped the bytes of the character that are behind it.
-/

namespace LayoutLexer

/-! ## Lines -/

theorem lineAt_behind_lineFeed (done rest : Bytes) :
    lineAt (done ++ lineFeed :: rest) (done.count lineFeed + 1) = lineAt rest 0 := by
  induction done using line_induction with
  | last line oneLine =>
      rw [List.count_eq_zero_of_not_mem oneLine, lineAt, sourceLines_cons oneLine,
        List.getElem?_cons_succ, lineAt]
  | cons line more oneLine ih =>
      rw [List.count_append, List.count_eq_zero_of_not_mem oneLine, List.count_cons_self,
        Nat.zero_add, List.append_assoc, List.cons_append, lineAt, sourceLines_cons oneLine,
        List.getElem?_cons_succ, ← lineAt, ih]

theorem lineLevel_lineAt_zero (source : Bytes) :
    lineLevel (lineAt source 0) = lineLevel source := by
  obtain ⟨line, later, lines⟩ := List.exists_cons_of_ne_nil (sourceLines_ne_nil source)
  have isLine : lineAt source 0 = line := by rw [lineAt, lines]; rfl
  rw [isLine, lineLevel, lineLevel, takeWhile_isMargin_of_sourceLines lines]

/-- Behind a line feed the level is settled by the blanks that come next. -/
theorem levelOf_behind_lineFeed (done rest : Bytes) :
    levelOf (done ++ lineFeed :: rest) (done.count lineFeed + 1) = lineLevel rest := by
  rw [levelOf_succ, lineAt_behind_lineFeed, lineLevel_lineAt_zero]

theorem Piece.Leads.lineBreak_or_onLine {byte : UInt8} {rest : Bytes} {piece : Piece}
    (leads : Leads byte rest piece) :
    byte = lineFeed ∧ piece = .lineBreak (rest.takeWhile isMargin) ∨
      lineFeed ∉ piece.bytes ∧ ∀ margin, piece ≠ .lineBreak margin := by
  by_cases isBreak : byte = lineFeed
  · subst isBreak
    exact Or.inl ⟨rfl, leads.eq_first⟩
  · right
    have oneLine := leads.lineFeed_not_mem isBreak
    refine ⟨oneLine, ?_⟩
    rintro margin rfl
    exact oneLine List.mem_cons_self

/-- The tokens of a piece lead from the level before the piece to the level behind it. -/
theorem PlacedPiece.leadsBetween_tokens {byte : UInt8} {rest : Bytes} {piece : Piece}
    (leads : Piece.Leads byte rest piece) (cursor : Cursor) :
    LeadsBetween cursor.level (cursor.advance piece).level (tokens { cursor, piece }) := by
  rcases leads.lineBreak_or_onLine with ⟨-, rfl⟩ | ⟨-, unbroken⟩
  · have newline : LeadsBetween cursor.level cursor.level
        [newlineToken cursor.line cursor.column] := by
      refine .of_no_marks (fun token member => ?_) cursor.level
      rw [List.mem_singleton.mp member]
      rfl
    exact newline.append (.layoutTokens _ _ _)
  · have noMarks := List.filter_eq_nil_iff.mp (filter_isMark_tokens leads unbroken cursor)
    rw [(advance_unbroken unbroken cursor).2.1]
    exact .of_no_marks (fun token member => by simpa using noMarks token member) cursor.level

/-! ## Places among characters -/

/-- An offset between two characters, or inside a character whose bytes in front of the offset
are among the dropped ones. -/
inductive StandsAmong (source : Bytes) (dropped : List Nat) (offset : Nat) : Prop
  | between (before after : List Char) : source = encoded before ++ encoded after →
      offset = (encoded before).length → StandsAmong source dropped offset
  | inside (before after : List Char) (char : Char) (passed left : Bytes) :
      source = encoded (before ++ char :: after) →
      String.utf8EncodeChar char = passed ++ left → passed ≠ [] → left ≠ [] →
      offset = (encoded before).length + passed.length →
      (∀ index < passed.length, (encoded before).length + index ∈ dropped) →
      StandsAmong source dropped offset

namespace StandsAmong

variable {source : Bytes} {dropped : List Nat} {offset : Nat}

/-- Dropping one more byte of a character leads on inside it or to its end. -/
theorem drop_in_character {before after : List Char} {char : Char} {passed left : Bytes}
    {byte : UInt8} (sourceEq : source = encoded (before ++ char :: after))
    (charEq : String.utf8EncodeChar char = passed ++ byte :: left)
    (offsetEq : offset = (encoded before).length + passed.length)
    (areDropped : ∀ index < passed.length, (encoded before).length + index ∈ dropped) :
    StandsAmong source (dropped ++ [offset]) (offset + 1) := by
  cases left with
  | nil =>
      refine .between (before ++ [char]) after ?_ ?_
      · rw [sourceEq, ← encoded_append, List.append_assoc, List.singleton_append]
      · have size := congrArg List.length charEq
        rw [List.length_append, List.length_singleton] at size
        rw [encoded_append, List.length_append, encoded_cons, List.length_append, size, offsetEq]
        rfl
  | cons next left =>
      refine .inside before after char (passed ++ [byte]) (next :: left) sourceEq ?_ (by simp)
        (List.cons_ne_nil _ _) ?_ ?_
      · rw [charEq, List.append_assoc, List.singleton_append]
      · rw [List.length_append, List.length_singleton, offsetEq, Nat.add_assoc]
      · intro index bound
        rw [List.length_append, List.length_singleton] at bound
        rw [List.mem_append, List.mem_singleton]
        by_cases isLast : index = passed.length
        · exact Or.inr (by omega)
        · exact Or.inl (areDropped index (by omega))

theorem drop (stands : StandsAmong source dropped offset) (bound : offset < source.length) :
    StandsAmong source (dropped ++ [offset]) (offset + 1) := by
  cases stands with
  | between before after sourceEq offsetEq =>
      cases after with
      | nil =>
          rw [sourceEq, offsetEq] at bound
          simp [encoded] at bound
      | cons char after =>
          have notEmpty : String.utf8EncodeChar char ≠ [] := String.utf8EncodeChar_ne_nil
          obtain ⟨byte, tail, isEncoding⟩ := List.exists_cons_of_ne_nil notEmpty
          have charEq : String.utf8EncodeChar char = [] ++ byte :: tail := isEncoding
          rw [← encoded_append] at sourceEq
          exact drop_in_character sourceEq charEq offsetEq (by simp)
  | inside before after char passed left sourceEq charEq _ notEnd offsetEq areDropped =>
      obtain ⟨byte, tail, rfl⟩ := List.exists_cons_of_ne_nil notEnd
      exact drop_in_character sourceEq charEq offsetEq areDropped

/-- Behind a piece that is not dropped no character is torn apart, wherever the piece began. -/
theorem behind_kept {done rest after : Bytes} {byte : UInt8} {piece : Piece}
    (isText : isUtf8 (done ++ byte :: rest) = true) (leads : Piece.Leads byte rest piece)
    (known : ByteClass.of byte ≠ .foreign) (parts : byte :: rest = piece.bytes ++ after) :
    StandsAmong (done ++ byte :: rest) dropped (done.length + piece.bytes.length) := by
  have isAscii := lt_of_class_ne_foreign known
  obtain ⟨isDone, isRest⟩ := isUtf8_split isAscii isText
  have isBehind : isUtf8 (byte :: rest) = true :=
    isUtf8_append (isUtf8_singleton isAscii) isRest
  obtain ⟨isPiece, isAfter⟩ := leads.isUtf8_bytes known parts isBehind
  obtain ⟨before, beforeEq⟩ := isUtf8_iff_encoded.mp (isUtf8_append isDone isPiece)
  obtain ⟨later, rfl⟩ := isUtf8_iff_encoded.mp isAfter
  refine .between before later ?_ ?_
  · rw [parts, ← beforeEq, List.append_assoc]
  · rw [← beforeEq, List.length_append]

end StandsAmong

theorem take_eq_of_split {source done rest : Bytes} {offset : Nat} (split : source = done ++ rest)
    (offsetEq : offset = done.length) : source.take offset = done := by
  rw [split, offsetEq, List.take_left]

namespace Scanner

@[simp]
theorem cursor_consume (scanner : Scanner) (piece : Piece) :
    (scanner.consume piece).cursor = scanner.cursor.advance piece :=
  rfl

theorem exists_split_of_nextByte? {scanner : Scanner} {byte : UInt8}
    (isNext : scanner.nextByte? = some byte) :
    ∃ done rest, scanner.source = done ++ byte :: rest ∧ scanner.cursor.offset = done.length := by
  obtain ⟨bound, isByte⟩ := List.getElem?_eq_some_iff.mp isNext
  refine ⟨scanner.source.take scanner.cursor.offset,
    scanner.source.drop (scanner.cursor.offset + 1), ?_, ?_⟩
  · rw [← isByte, ← List.drop_eq_getElem_cons, List.take_append_drop]
  · rw [List.length_take_of_le (Nat.le_of_lt bound)]

/-! ## The invariant -/

/-- The scanners that steps lead to from a new scanner over a source, with the offsets of the
bytes that were dropped on the way. -/
inductive ReachableDropping (source : Bytes) : List Nat → Scanner → Prop
  | new : ReachableDropping source [] (.new source)
  | step {dropped : List Nat} {scanner next : Scanner} {byte : UInt8} :
      ReachableDropping source dropped scanner → scanner.nextByte? = some byte →
      scanner.step byte = .ok next →
      ReachableDropping source
        (if ByteClass.of byte = .foreign then dropped ++ [scanner.cursor.offset] else dropped) next

theorem reachable_iff_exists_dropped {source : Bytes} {scanner : Scanner} :
    Reachable source scanner ↔ ∃ dropped, ReachableDropping source dropped scanner := by
  constructor
  · intro reachable
    induction reachable with
    | new => exact ⟨[], .new⟩
    | step _ isNext goes ih =>
        obtain ⟨dropped, earlier⟩ := ih
        exact ⟨_, earlier.step isNext goes⟩
  · rintro ⟨dropped, reachable⟩
    induction reachable with
    | new => exact .new
    | step _ isNext goes ih => exact ih.step isNext goes

/-- What the fields of a scanner say about the bytes behind the cursor, when those at the given
offsets were dropped. -/
structure KeepsPlace (source : Bytes) (dropped : List Nat) (scanner : Scanner) : Prop where
  source_eq : scanner.source = source
  line_eq : scanner.cursor.line = (source.take scanner.cursor.offset).count lineFeed
  lineStart_eq : scanner.cursor.lineStart = lastLineStart (source.take scanner.cursor.offset)
  dropped_sorted : dropped.Pairwise (· < ·)
  dropped_lt : ∀ offset ∈ dropped, offset < scanner.cursor.offset
  /-- The bytes of the line up to the cursor are counted by the column, or they were dropped. -/
  column_eq : scanner.cursor.column + scanner.cursor.lineStart +
    dropped.countP (fun offset => scanner.cursor.lineStart ≤ offset) = scanner.cursor.offset
  level_eq : scanner.cursor.level = levelOf source scanner.cursor.line
  balance_eq : indents scanner.tokens = dedents scanner.tokens + scanner.cursor.level
  stands : StandsAmong source dropped scanner.cursor.offset

namespace KeepsPlace

variable {source done rest after : Bytes} {dropped : List Nat} {scanner : Scanner} {byte : UInt8}
  {piece : Piece}

theorem new (isText : isUtf8 source = true) : KeepsPlace source [] (.new source) where
  source_eq := rfl
  line_eq := rfl
  lineStart_eq := rfl
  dropped_sorted := .nil
  dropped_lt := by simp
  column_eq := rfl
  level_eq := rfl
  balance_eq := rfl
  stands := by
    obtain ⟨characters, rfl⟩ := isUtf8_iff_encoded.mp isText
    exact .between [] characters rfl rfl

theorem balance_consume (keeps : KeepsPlace source dropped scanner)
    (leads : Piece.Leads byte rest piece) :
    indents (scanner.consume piece).tokens =
      dedents (scanner.consume piece).tokens + (scanner.consume piece).cursor.level := by
  have before := keeps.balance_eq
  have here := (PlacedPiece.leadsBetween_tokens leads scanner.cursor).level_eq
  simp only [consume, indents, dedents, List.countP_append] at before here ⊢
  omega

theorem dropped_lt_consume (keeps : KeepsPlace source dropped scanner) (piece : Piece) :
    ∀ offset ∈ dropped, offset < (scanner.consume piece).cursor.offset := by
  intro offset member
  have behind := keeps.dropped_lt offset member
  rw [cursor_consume, Cursor.offset_advance]
  omega

/-- A line that begins behind the cursor has no dropped bytes yet. -/
theorem countP_ahead_eq_zero (keeps : KeepsPlace source dropped scanner) :
    dropped.countP (fun offset => scanner.cursor.offset + 1 ≤ offset) = 0 := by
  rw [List.countP_eq_zero]
  intro offset member
  have behind := keeps.dropped_lt offset member
  simpa using Nat.lt_succ_of_lt behind

/-- A step over a line feed and the blanks behind it. -/
theorem consume_lineBreak (keeps : KeepsPlace source dropped scanner)
    (split : source = done ++ lineFeed :: rest) (atByte : scanner.cursor.offset = done.length)
    (stands : StandsAmong source dropped
      (scanner.consume (.lineBreak (rest.takeWhile isMargin))).cursor.offset) :
    KeepsPlace source dropped (scanner.consume (.lineBreak (rest.takeWhile isMargin))) := by
  have balance := keeps.balance_consume (.lineBreak rfl : Piece.Leads lineFeed rest _)
  have lower := keeps.dropped_lt_consume (.lineBreak (rest.takeWhile isMargin))
  have noBreak : lineFeed ∉ rest.takeWhile isMargin := not_mem_takeWhile (by decide) rest
  have whole : rest.takeWhile isMargin ++ rest.dropWhile isMargin = rest :=
    List.takeWhile_append_dropWhile
  have line : scanner.cursor.line = done.count lineFeed := by
    rw [keeps.line_eq, take_eq_of_split split atByte]
  have level : lineLevel rest = marginLevel (rest.takeWhile isMargin).length := rfl
  have levels := levelOf_behind_lineFeed done rest
  rw [← split] at levels
  generalize rest.takeWhile isMargin = margin at balance lower stands noBreak whole level ⊢
  have behind : source = done ++ [lineFeed] ++ margin ++ rest.dropWhile isMargin := by
    simp [split, whole]
  have offset : (scanner.cursor.advance (.lineBreak margin)).offset =
      (done ++ [lineFeed] ++ margin).length := by
    simp only [Cursor.advance, List.length_append, List.length_singleton, atByte]
  have noneAhead := keeps.countP_ahead_eq_zero
  refine ⟨keeps.source_eq, ?_, ?_, keeps.dropped_sorted, lower, ?_, ?_, balance, stands⟩
  · rw [cursor_consume, take_eq_of_split behind offset, List.count_append,
      List.count_eq_zero_of_not_mem noBreak, List.count_append, ← line]
    rfl
  · rw [cursor_consume, take_eq_of_split behind offset,
      Cursor.Counts.lastLineStart_append noBreak, Cursor.Counts.lastLineStart_lineFeed, ← atByte]
    rfl
  · change margin.length + (scanner.cursor.offset + 1) +
      dropped.countP (fun other => scanner.cursor.offset + 1 ≤ other) =
        scanner.cursor.offset + 1 + margin.length
    omega
  · change marginLevel _ = levelOf source (scanner.cursor.line + 1)
    rw [line, levels, level, Nat.add_sub_cancel_left]

/-- The line, its start and its level are the same behind a piece without a line feed. -/
theorem consume_onLine (keeps : KeepsPlace source dropped scanner)
    (split : source = done ++ byte :: rest) (atByte : scanner.cursor.offset = done.length)
    (parts : byte :: rest = piece.bytes ++ after) (oneLine : lineFeed ∉ piece.bytes)
    (unbroken : ∀ margin, piece ≠ .lineBreak margin) :
    (scanner.cursor.advance piece).line =
        (source.take (scanner.cursor.advance piece).offset).count lineFeed ∧
      (scanner.cursor.advance piece).lineStart =
        lastLineStart (source.take (scanner.cursor.advance piece).offset) ∧
      (scanner.cursor.advance piece).level =
        levelOf source (scanner.cursor.advance piece).line := by
  obtain ⟨sameLine, sameLevel, sameStart, -⟩ := advance_unbroken unbroken scanner.cursor
  have behind : source = done ++ piece.bytes ++ after := by rw [split, parts, List.append_assoc]
  have offset : (scanner.cursor.advance piece).offset = (done ++ piece.bytes).length := by
    rw [Cursor.offset_advance, atByte, List.length_append]
  rw [take_eq_of_split behind offset, sameLine, sameStart, sameLevel]
  refine ⟨?_, ?_, keeps.level_eq⟩
  · rw [List.count_append, List.count_eq_zero_of_not_mem oneLine, Nat.add_zero, keeps.line_eq,
      take_eq_of_split split atByte]
  · rw [Cursor.Counts.lastLineStart_append oneLine, keeps.lineStart_eq,
      take_eq_of_split split atByte]

/-- A step over any other piece that is kept. -/
theorem consume_kept (keeps : KeepsPlace source dropped scanner)
    (split : source = done ++ byte :: rest) (atByte : scanner.cursor.offset = done.length)
    (leads : Piece.Leads byte rest piece) (parts : byte :: rest = piece.bytes ++ after)
    (oneLine : lineFeed ∉ piece.bytes) (unbroken : ∀ margin, piece ≠ .lineBreak margin)
    (kept : piece.isDropped = false)
    (stands : StandsAmong source dropped (scanner.consume piece).cursor.offset) :
    KeepsPlace source dropped (scanner.consume piece) := by
  obtain ⟨line, lineStart, level⟩ := keeps.consume_onLine split atByte parts oneLine unbroken
  obtain ⟨-, -, sameStart, column⟩ := advance_unbroken unbroken scanner.cursor
  refine ⟨keeps.source_eq, line, lineStart, keeps.dropped_sorted, keeps.dropped_lt_consume piece,
    ?_, level, keeps.balance_consume leads, stands⟩
  have columns := keeps.column_eq
  rw [kept] at column
  rw [cursor_consume, Cursor.offset_advance, sameStart]
  simp only [Bool.false_eq_true, if_false] at column
  omega

/-- A step that drops a byte adds nothing to the column. -/
theorem consume_dropped (keeps : KeepsPlace source dropped scanner)
    (split : source = done ++ byte :: rest) (atByte : scanner.cursor.offset = done.length)
    (isForeign : ByteClass.of byte = .foreign) :
    KeepsPlace source (dropped ++ [scanner.cursor.offset]) (scanner.consume (.dropped byte)) := by
  have leads : Piece.Leads byte rest (.dropped byte) := .dropped isForeign
  have notBreak := ne_lineFeed_of_class isForeign ByteClass.noConfusion
  obtain ⟨line, lineStart, level⟩ := keeps.consume_onLine split atByte
    (List.singleton_append.symm : byte :: rest = (Piece.dropped byte).bytes ++ rest)
    (leads.lineFeed_not_mem notBreak) (fun _ => Piece.noConfusion)
  have columns := keeps.column_eq
  refine ⟨keeps.source_eq, line, lineStart, ?_, ?_, ?_, level, keeps.balance_consume leads, ?_⟩
  · rw [List.pairwise_append]
    refine ⟨keeps.dropped_sorted, List.pairwise_singleton _ _, ?_⟩
    intro first isFirst second isSecond
    rw [List.mem_singleton.mp isSecond]
    exact keeps.dropped_lt first isFirst
  · intro other member
    rcases List.mem_append.mp member with earlier | here
    · exact keeps.dropped_lt_consume _ other earlier
    · rw [List.mem_singleton.mp here]
      exact Nat.lt_succ_self _
  · have onLine : scanner.cursor.lineStart ≤ scanner.cursor.offset := by omega
    rw [List.countP_append, List.countP_singleton]
    change scanner.cursor.column + scanner.cursor.lineStart +
      (dropped.countP (fun other => scanner.cursor.lineStart ≤ other) +
        if decide (scanner.cursor.lineStart ≤ scanner.cursor.offset) then 1 else 0) =
          scanner.cursor.offset + 1
    rw [if_pos (decide_eq_true onLine)]
    omega
  · refine keeps.stands.drop ?_
    rw [split, atByte, List.length_append, List.length_cons]
    omega

/-- Every step keeps the place. -/
theorem step (keeps : KeepsPlace source dropped scanner) (isText : isUtf8 source = true)
    {next : Scanner} (isNext : scanner.nextByte? = some byte)
    (goes : scanner.step byte = .ok next) :
    KeepsPlace source
      (if ByteClass.of byte = .foreign then dropped ++ [scanner.cursor.offset] else dropped)
      next := by
  obtain ⟨done, rest, split, atByte⟩ := exists_split_of_nextByte? isNext
  rw [step_eq_consume (keeps.source_eq ▸ isText) split atByte, Except.ok.injEq] at goes
  rw [keeps.source_eq] at split
  subst goes
  have leads := Piece.leads_first byte rest
  by_cases isForeign : ByteClass.of byte = .foreign
  · rw [if_pos isForeign, Piece.first_foreign isForeign]
    exact keeps.consume_dropped split atByte isForeign
  · rw [if_neg isForeign]
    obtain ⟨after, parts⟩ := Piece.first_bytes_isPrefix byte rest
    have stands : StandsAmong source dropped
        (scanner.consume (Piece.first byte rest)).cursor.offset := by
      rw [cursor_consume, Cursor.offset_advance, atByte, split]
      exact .behind_kept (split ▸ isText) leads isForeign parts.symm
    rcases leads.lineBreak_or_onLine with ⟨rfl, isBreak⟩ | ⟨oneLine, unbroken⟩
    · exact keeps.consume_lineBreak split atByte stands
    · exact keeps.consume_kept split atByte leads parts.symm oneLine unbroken
        (leads.isDropped_eq_false isForeign) stands

end KeepsPlace

variable {source : Bytes} {dropped : List Nat} {scanner : Scanner}

theorem ReachableDropping.keepsPlace (reachable : ReachableDropping source dropped scanner)
    (isText : isUtf8 source = true) : KeepsPlace source dropped scanner := by
  induction reachable with
  | new => exact .new isText
  | step _ isNext goes ih => exact ih.step isText isNext goes

/-! ## The width of a margin -/

/-- A scanner when it has taken a line feed and is about to measure the margin behind it. -/
def behindLineFeed (scanner : Scanner) : Scanner where
  source := scanner.source
  cursor :=
    { offset := scanner.cursor.offset + 1
      line := scanner.cursor.line + 1
      lineStart := scanner.cursor.offset + 1
      column := 0
      level := scanner.cursor.level }
  tokens := scanner.tokens ++ [newlineToken scanner.cursor.line scanner.cursor.column]

theorem step_lineFeed_eq (scanner : Scanner) :
    scanner.step lineFeed = scanner.behindLineFeed.scanMargin := by
  change unlogged scanner.scanLineFeed = _
  rw [scanLineFeed, checkedToken_eq rfl]
  rfl

/-- The distance from the start of the line is the number of the blanks just eaten. -/
theorem width_behindLineFeed (isText : isUtf8 scanner.source = true)
    (isNext : scanner.nextByte? = some lineFeed) :
    ∃ blanks behind, scanner.behindLineFeed.eatWhile isMargin = .ok (blanks, behind) ∧
      behind.cursor.lineStart ≤ behind.cursor.offset ∧
      behind.cursor.offset - behind.cursor.lineStart = blanks.length := by
  obtain ⟨done, rest, split, atByte⟩ := exists_split_of_nextByte? isNext
  obtain ⟨isDone, -⟩ := isUtf8_split (by decide) (split ▸ isText)
  have stands : scanner.behindLineFeed.StandsBefore (done ++ [lineFeed]) rest := by
    refine ⟨?_, ?_, isUtf8_append isDone (isUtf8_singleton (by decide))⟩
    · rw [List.append_assoc]
      exact split
    · rw [List.length_append, ← atByte]
      rfl
  have isMarginText : isUtf8 (rest.takeWhile isMargin) = true :=
    isUtf8_of_ascii fun other member => lt_of_class_ne_foreign
      (class_of_isMargin (accepts_of_mem_takeWhile member) ▸ ByteClass.noConfusion)
  refine ⟨_, _, stands.eatWhile_eq isMarginText, Nat.le_add_right _ _, ?_⟩
  exact Nat.add_sub_cancel_left _ _

/-- Whatever steps lead to keeps its place, from a new scanner to the one that has tokenized.
Wherever a margin is about to be measured, the distance from the start of the line comes out as
the number of the blanks just eaten. -/
theorem keeps_place_at_every_step (text : String) :
    (∃ dropped, ReachableDropping (utf8 text) dropped (Scanner.new (utf8 text)).tokenize) ∧
    (∀ scanner, Reachable (utf8 text) scanner ↔
      ∃ dropped, ReachableDropping (utf8 text) dropped scanner) ∧
    ∀ dropped scanner, ReachableDropping (utf8 text) dropped scanner →
      KeepsPlace (utf8 text) dropped scanner ∧
        (scanner.nextByte? = some lineFeed →
          scanner.step lineFeed = scanner.behindLineFeed.scanMargin ∧
            ∃ blanks behind, scanner.behindLineFeed.eatWhile isMargin = .ok (blanks, behind) ∧
              behind.cursor.lineStart ≤ behind.cursor.offset ∧
              behind.cursor.offset - behind.cursor.lineStart = blanks.length) := by
  have isText : isUtf8 (utf8 text) = true := (isUtf8_iff _).mpr ⟨text, rfl⟩
  have toEnd : Reachable (utf8 text) (Scanner.new (utf8 text)).tokenize :=
    Reachable.new.tokenize (.new _) isText
  refine ⟨reachable_iff_exists_dropped.mp toEnd, fun scanner => reachable_iff_exists_dropped,
    fun dropped scanner reachable => ?_⟩
  have keeps := reachable.keepsPlace isText
  refine ⟨keeps, fun isNext => ⟨scanner.step_lineFeed_eq, ?_⟩⟩
  exact width_behindLineFeed (keeps.source_eq ▸ isText) isNext

/-- Behind a margin of four blanks, where the first of the two bytes of a character has just been
dropped. -/
theorem keeps_place_at_every_step_inside_character :
    ∃ scanner, ReachableDropping (utf8 "\n    é") [5] scanner ∧
      scanner.cursor = { offset := 6, line := 1, lineStart := 1, column := 4, level := 1 } ∧
      KeepsPlace (utf8 "\n    é") [5] scanner := by
  have isText : isUtf8 (utf8 "\n    é") = true := (isUtf8_iff _).mpr ⟨_, rfl⟩
  have source : utf8 "\n    é" = [10, 32, 32, 32, 32, 195, 169] := by decide
  have isBreak : (new (utf8 "\n    é")).nextByte? = some lineFeed := by rw [source]; rfl
  have split : utf8 "\n    é" = [] ++ lineFeed :: [32, 32, 32, 32, 195, 169] := source
  have behindMargin := ReachableDropping.new.step isBreak (step_eq_consume isText split rfl)
  have splitNext : utf8 "\n    é" = [10, 32, 32, 32, 32] ++ 195 :: [169] := source
  have inside := behindMargin.step (by rw [source]; rfl) (step_eq_consume isText splitNext rfl)
  have keeps := (keeps_place_at_every_step "\n    é").2.2 _ _ inside
  exact ⟨_, inside, rfl, keeps.1⟩

end Scanner

end LayoutLexer
