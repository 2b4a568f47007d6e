import LayoutLexer.Event
import LayoutLexer.Proofs.DroppedBytes
import LayoutLexer.Proofs.LevelChanges
import LayoutLexer.Proofs.ScannerSafety

/-!
# The log of a scan

The log and the tokens come from the same pieces, so each can be told from the other.
The unknown tokens are logged one by one.  A change of level is logged for every line
with marks of layout, and what it says of the levels is what the marks say.  A byte is
logged as dropped exactly if it begins nothing and neither a string nor a comment hides
it.  The last entry has the length of the source and the number of tokens.

A scanner that goes over a text step by step keeps the same log: each step adds the
entries of the piece that it takes, and at the end only the last entry is missing.
-/

namespace LayoutLexer

/-! ## Events of pieces from a place on -/

/-- The events of pieces, the first of them at the given place. -/
def eventsFrom (cursor : Cursor) (pieces : List Piece) : List Event :=
  (place cursor pieces).flatMap PlacedPiece.events

theorem trace_eq_append (source : Bytes) :
    trace source =
      eventsFrom .start (cut source) ++ [.complete source.length (scan source).length] :=
  rfl

@[simp]
theorem eventsFrom_cons (cursor : Cursor) (piece : Piece) (pieces : List Piece) :
    eventsFrom cursor (piece :: pieces) =
      PlacedPiece.events { cursor, piece } ++ eventsFrom (cursor.advance piece) pieces := by
  simp [eventsFrom]

theorem eventsFrom_append (cursor : Cursor) (first second : List Piece) :
    eventsFrom cursor (first ++ second) =
      eventsFrom cursor first ++ eventsFrom (cursor.advanceAll first) second := by
  induction first generalizing cursor with
  | nil => rfl
  | cons piece first ih =>
      rw [List.cons_append, eventsFrom_cons, eventsFrom_cons, ih, List.append_assoc,
        Cursor.advanceAll_cons]

/-! ## The log of steps -/

namespace Scanner

/-- The entry that closes the log of a scanner at the end of its source. -/
def closingEvent (scanner : Scanner) : Event :=
  .complete scanner.source.length scanner.tokens.length

variable {source rest : Bytes} {taken : List Piece} {log : List Event} {scanner : Scanner}
  {byte : UInt8}

theorem HasTaken.cursor_eq (hasTaken : HasTaken source taken rest scanner) :
    scanner.cursor = Cursor.start.advanceAll taken := by
  rw [hasTaken.scannerEq, consumeAll_eq]
  rfl

/-- A step that logs takes the next piece, and adds the events of the piece to the log. -/
theorem HasTaken.tracedStep_eq (hasTaken : HasTaken source taken (byte :: rest) scanner)
    (isText : isUtf8 source = true) :
    scanner.tracedStep byte (eventsFrom .start taken) =
      .ok (scanner.consume (Piece.first byte rest),
        eventsFrom .start (taken ++ [Piece.first byte rest])) := by
  have takes := takes_tracedStep (hasTaken.source_eq ▸ isText)
    (hasTaken.source_eq.trans hasTaken.bytesEq) hasTaken.offset_eq
  rw [takes (eventsFrom .start taken), eventsFrom_append, eventsFrom_cons, hasTaken.cursor_eq]
  simp [eventsFrom]

theorem ReachableLogging.hasTaken (reachable : ReachableLogging source log scanner)
    (isText : isUtf8 source = true) :
    ∃ taken rest, HasTaken source taken rest scanner ∧ log = eventsFrom .start taken := by
  induction reachable with
  | new => exact ⟨[], source, .new source, rfl⟩
  | @step log longer scanner next byte _ isNext goes ih =>
      obtain ⟨taken, left, hasTaken, rfl⟩ := ih
      rw [hasTaken.nextByte?_eq] at isNext
      obtain ⟨rest, rfl⟩ := List.head?_eq_some_iff.mp isNext
      obtain ⟨after, split⟩ := Piece.first_bytes_isPrefix byte rest
      rw [hasTaken.tracedStep_eq isText, Except.ok.injEq, Prod.mk.injEq] at goes
      obtain ⟨rfl, rfl⟩ := goes
      exact ⟨_, after, hasTaken.consume split.symm, rfl⟩

/-- From every scanner that has taken pieces and logged them, steps lead to the end. -/
theorem ReachableLogging.tokenize
    (reachable : ReachableLogging source (eventsFrom .start taken) scanner)
    (hasTaken : HasTaken source taken rest scanner) (isText : isUtf8 source = true) :
    ReachableLogging source (eventsFrom .start (cut source)) (Scanner.new source).tokenize := by
  induction rest using cut_induction generalizing taken scanner with
  | nil =>
      have all := hasTaken.cutEq
      rw [cut_nil, List.append_nil] at all
      rw [all, ← hasTaken.eq_tokenize]
      exact reachable
  | cons byte rest after split ih =>
      have isNext : scanner.nextByte? = some byte := hasTaken.nextByte?_eq
      exact ih (reachable.step isNext (hasTaken.tracedStep_eq isText)) (hasTaken.consume split)

/-- The steps over a text lead to the scanner that has tokenized, and their log is that of
the scan but for the last entry.  Up to there they have logged a beginning of it. -/
theorem steps_keep_trace (text : String) :
    (∃ log, ReachableLogging (utf8 text) log (Scanner.new (utf8 text)).tokenize ∧
      trace (utf8 text) = log ++ [(Scanner.new (utf8 text)).tokenize.closingEvent]) ∧
    ∀ log scanner, ReachableLogging (utf8 text) log scanner → log <+: trace (utf8 text) := by
  have isText : isUtf8 (utf8 text) = true := (isUtf8_iff _).mpr ⟨text, rfl⟩
  refine ⟨⟨_, ReachableLogging.new.tokenize (.new _) isText, rfl⟩, ?_⟩
  intro log scanner reachable
  obtain ⟨taken, rest, hasTaken, rfl⟩ := reachable.hasTaken isText
  rw [trace_eq_append, hasTaken.cutEq, eventsFrom_append, List.append_assoc]
  exact List.prefix_append _ _

end Scanner

/-! ## Unknown tokens -/

/-- The entry for an unknown token. -/
def Token.unknownEvent (token : Token) : Event :=
  .unknown token.text token.line token.startColumn

/-- What the log says of an unknown token. -/
def Token.logged (token : Token) : List (String × FieldValue) :=
  [("text", .text (utf8 "Some(" ++ quoted (token.text.getD []) ++ utf8 ")")),
    ("line", .number token.line), ("col", .number token.startColumn)]

theorem PlacedPiece.unknown_events (placed : PlacedPiece) :
    (placed.events.filter fun event => event.message = "unknown token") =
      (placed.tokens.filter fun token => token.kind = .unknown).map Token.unknownEvent := by
  obtain ⟨cursor, piece⟩ := placed
  cases piece with
  | lexeme kind text bytes =>
      by_cases isUnknown : kind = .unknown
      · subst isUnknown
        rfl
      · simp [events, tokens, isUnknown]
  | lineBreak margin =>
      by_cases same : (cursor.advance (.lineBreak margin)).level = cursor.level
      · simp [events, tokens, layoutTokens, next, same]
      · simp [events, tokens, layoutTokens, next, same, Event.message]
  | comment bytes => rfl
  | blank byte => rfl
  | dropped byte => rfl

theorem unknown_eventsFrom (cursor : Cursor) (pieces : List Piece) :
    ((eventsFrom cursor pieces).filter fun event => event.message = "unknown token") =
      ((tokensFrom cursor pieces).filter fun token => token.kind = .unknown).map
        Token.unknownEvent := by
  induction pieces generalizing cursor with
  | nil => rfl
  | cons piece pieces ih =>
      rw [eventsFrom_cons, tokensFrom_cons, List.filter_append, List.filter_append,
        List.map_append, ih, PlacedPiece.unknown_events]

theorem exists_text_of_unknown {source : Bytes} {token : Token} (member : token ∈ scan source)
    (isUnknown : token.kind = .unknown) : ∃ text, token.text = some text := by
  obtain ⟨before, piece, after, parts, isOwn⟩ := exists_piece_of_mem_tokensFrom member
  obtain ⟨byte, rest, -, leads⟩ := leads_of_cut_eq_append parts
  cases piece with
  | lexeme kind text bytes =>
      obtain rfl := List.mem_singleton.mp isOwn
      obtain rfl : kind = .unknown := isUnknown
      exact ⟨bytes, Piece.text_of_first_eq_lexeme leads.eq_first.symm⟩
  | lineBreak margin =>
      rcases List.mem_cons.mp isOwn with rfl | isMark
      · cases isUnknown
      · obtain ⟨-, -, bare, -⟩ := of_mem_layoutTokens isMark
        rw [isUnknown] at bare
        cases bare
  | comment _ | blank _ | dropped _ => exact absurd isOwn List.not_mem_nil

/-- The fields of the entries for unknown tokens. -/
theorem map_fields_unknownEvent (source : Bytes) :
    (((scan source).filter fun token => token.kind = .unknown).map Token.unknownEvent).map
        Event.fields =
      ((scan source).filter fun token => token.kind = .unknown).map Token.logged := by
  rw [List.map_map]
  refine List.map_congr_left fun token member => ?_
  obtain ⟨isToken, isUnknown⟩ := List.mem_filter.mp member
  obtain ⟨text, hasText⟩ := exists_text_of_unknown isToken (of_decide_eq_true isUnknown)
  simp [Token.unknownEvent, Event.fields, Event.optionalText, Token.logged, hasText]

/-! ## Changes of level -/

def LevelChange.event (change : LevelChange) : Event :=
  .levelChange change.before change.after change.line

theorem PlacedPiece.level_events_unbroken {piece : Piece}
    (unbroken : ∀ margin, piece ≠ .lineBreak margin) (cursor : Cursor) :
    ((PlacedPiece.events { cursor, piece }).filter fun event =>
      event.message = "indentation change") = [] := by
  cases piece with
  | lexeme kind text bytes => cases kind <;> rfl
  | lineBreak margin => exact absurd rfl (unbroken margin)
  | comment _ | blank _ | dropped _ => rfl

theorem level_eventsFrom (cursor : Cursor) (pieces : List Piece) :
    ((eventsFrom cursor pieces).filter fun event => event.message = "indentation change") =
      (levelChangesFrom cursor pieces).map LevelChange.event := by
  induction pieces generalizing cursor with
  | nil => rfl
  | cons piece pieces ih =>
      rw [eventsFrom_cons, List.filter_append, ih]
      by_cases isBreak : ∃ margin, piece = .lineBreak margin
      · obtain ⟨margin, rfl⟩ := isBreak
        rw [levelChangesFrom]
        by_cases same : (cursor.advance (.lineBreak margin)).level = cursor.level
        · simp [PlacedPiece.events, PlacedPiece.next, same]
        · simp [PlacedPiece.events, PlacedPiece.next, same, Event.message, LevelChange.event]
      · have unbroken := not_exists.mp isBreak
        rw [levelChangesFrom_unbroken unbroken, PlacedPiece.level_events_unbroken unbroken,
          List.nil_append]

/-! ## Dropped bytes -/

/-- What the log says of the byte at an offset of a source if it is dropped. -/
def dropEvent (source : Bytes) (offset : Nat) : Event :=
  .dropped (source.getD offset 0) ((source.take offset).count lineFeed)

theorem PlacedPiece.drop_events_kept {piece : Piece} (kept : piece.isDropped = false)
    (cursor : Cursor) :
    ((PlacedPiece.events { cursor, piece }).filter fun event =>
      event.message = "dropping unrecognised byte") = [] := by
  cases piece with
  | lexeme kind text bytes => cases kind <;> rfl
  | lineBreak margin =>
      by_cases same : (cursor.advance (.lineBreak margin)).level = cursor.level
      · simp [events, next, same]
      · simp [events, next, same, Event.message]
  | comment _ | blank _ => rfl
  | dropped byte => cases kept

/-- The event of a dropped piece is that of its offset. -/
theorem PlacedPiece.drop_events (piece : Piece) {cursor : Cursor} {front : Bytes}
    (offset : cursor.offset = front.length) (line : cursor.line = front.count lineFeed)
    (after : Bytes) :
    ((PlacedPiece.events { cursor, piece }).filter fun event =>
        event.message = "dropping unrecognised byte") =
      (Tile.droppedOffsets cursor.offset (PlacedPiece.tiles { cursor, piece })).map
        (dropEvent (front ++ (piece.bytes ++ after))) := by
  by_cases isDropped : piece.isDropped = true
  · cases piece with
    | dropped byte =>
        simp [events, tiles, Event.message, Tile.droppedOffsets, Tile.isDropped, dropEvent,
          Piece.bytes, offset, line]
    | _ => cases isDropped
  · have kept : piece.isDropped = false := by simpa using isDropped
    rw [drop_events_kept kept, Tile.droppedOffsets_eq_nil fun _ => isDropped_of_mem_tiles kept,
      List.map_nil]

theorem drop_eventsFrom {cursor : Cursor} {front : Bytes} (offset : cursor.offset = front.length)
    (line : cursor.line = front.count lineFeed) (source : Bytes) :
    ((eventsFrom cursor (cut source)).filter fun event =>
        event.message = "dropping unrecognised byte") =
      (Tile.droppedOffsets cursor.offset (tilesFrom cursor (cut source))).map
        (dropEvent (front ++ source)) := by
  induction source using cut_induction generalizing cursor front with
  | nil => rw [cut_nil]; rfl
  | cons byte rest after split ih =>
      have leads := Piece.leads_first byte rest
      have nextOffset : (cursor.advance (Piece.first byte rest)).offset =
          (front ++ (Piece.first byte rest).bytes).length := by
        rw [Cursor.offset_advance, offset, List.length_append]
      have nextLine : (cursor.advance (Piece.first byte rest)).line =
          (front ++ (Piece.first byte rest).bytes).count lineFeed := by
        rw [line_advance leads, line, List.count_append]
      rw [cut_cons split, eventsFrom_cons, tilesFrom_cons, List.filter_append,
        ih nextOffset nextLine,
        Tile.droppedOffsets_append, List.map_append, split,
        PlacedPiece.drop_events _ offset line, PlacedPiece.bytesOf_tiles,
        ← Cursor.offset_advance, List.append_assoc]

/-! ## The order of events -/

/-- Where an event comes from.  It has the number of line feeds up to there as its line, and a
change of level has the line behind its line feed. -/
def Event.StandsAt (source : Bytes) (offset : Nat) : Event → Prop
  | dropped byte line =>
    source[offset]? = some byte ∧ line = (source.take offset).count lineFeed
  | levelChange _ _ line =>
    source[offset]? = some lineFeed ∧ line = (source.take offset).count lineFeed + 1
  | unknown text line _ =>
    ∃ bytes, text = some bytes ∧ bytes <+: source.drop offset ∧
      line = (source.take offset).count lineFeed
  | complete .. => False

/-- A piece is logged by one event at most. -/
theorem PlacedPiece.events_eq {byte : UInt8} {rest : Bytes} {piece : Piece}
    (leads : Piece.Leads byte rest piece) {cursor : Cursor} {front : Bytes}
    (line : cursor.line = front.count lineFeed) (after : Bytes) :
    PlacedPiece.events { cursor, piece } = [] ∨
      ∃ event, PlacedPiece.events { cursor, piece } = [event] ∧
        event.StandsAt (front ++ (piece.bytes ++ after)) front.length := by
  have upTo : cursor.line =
      ((front ++ (piece.bytes ++ after)).take front.length).count lineFeed := by
    rw [List.take_left, line]
  cases piece with
  | lexeme kind text bytes =>
      cases kind with
      | unknown =>
          obtain rfl := Piece.text_of_first_eq_lexeme leads.eq_first.symm
          refine .inr ⟨_, rfl, bytes, rfl, ?_, upTo⟩
          rw [List.drop_left]
          exact List.prefix_append bytes after
      | _ => exact .inl rfl
  | lineBreak margin =>
      by_cases same : (cursor.advance (.lineBreak margin)).level = cursor.level
      · exact .inl (if_pos same)
      · refine .inr ⟨_, if_neg same, ?_, congrArg (· + 1) upTo⟩
        simp [Piece.bytes]
  | comment _ | blank _ => exact .inl rfl
  | dropped byte =>
      refine .inr ⟨_, rfl, ?_, upTo⟩
      simp [Piece.bytes]

theorem exists_offsets_eventsFrom {cursor : Cursor} {front : Bytes}
    (line : cursor.line = front.count lineFeed) (source : Bytes) :
    ∃ offsets : List Nat, (∀ offset ∈ offsets, front.length ≤ offset) ∧
      offsets.Pairwise (· < ·) ∧
      List.Forall₂ (Event.StandsAt (front ++ source)) offsets (eventsFrom cursor (cut source)) := by
  induction source using cut_induction generalizing cursor front with
  | nil =>
      rw [cut_nil]
      exact ⟨[], fun _ member => absurd member List.not_mem_nil, .nil, .nil⟩
  | cons byte rest after split ih =>
      have leads := Piece.leads_first byte rest
      have positive := List.length_pos_iff.mpr leads.bytes_ne_nil
      have nextLine : (cursor.advance (Piece.first byte rest)).line =
          (front ++ (Piece.first byte rest).bytes).count lineFeed := by
        rw [line_advance leads, line, List.count_append]
      obtain ⟨offsets, beyond, ordered, stand⟩ := ih nextLine
      rw [List.append_assoc, ← split] at stand
      have behind : ∀ offset ∈ offsets, front.length < offset := by
        intro offset member
        have bound := beyond offset member
        rw [List.length_append] at bound
        omega
      rw [cut_cons split, eventsFrom_cons]
      rcases PlacedPiece.events_eq leads line after with silent | ⟨event, single, stands⟩
      · rw [silent]
        exact ⟨offsets, fun offset member => Nat.le_of_lt (behind offset member), ordered, stand⟩
      · rw [← split] at stands
        rw [single]
        refine ⟨front.length :: offsets, fun offset member => ?_, .cons behind ordered,
          .cons stands stand⟩
        rcases List.mem_cons.mp member with rfl | later
        · exact Nat.le_refl _
        · exact Nat.le_of_lt (behind offset later)

theorem message_ne_of_mem_eventsFrom {cursor : Cursor} {pieces : List Piece} {event : Event}
    (member : event ∈ eventsFrom cursor pieces) : event.message ≠ "scan complete" := by
  obtain ⟨⟨cursor, piece⟩, -, isEvent⟩ := List.mem_flatMap.mp member
  cases event with
  | complete byteCount tokenCount =>
      unfold PlacedPiece.events at isEvent
      (repeat' split at isEvent) <;> simp at isEvent
  | _ => simp [Event.message]

/-- The log and the tokens tell the same.  The unknown tokens are logged in order with their
texts and places.  The changes of level follow the marks of layout, from level zero to the
level at the end.  The bytes that are logged as dropped, with their lines, are the foreign
bytes outside comments and outside tokens that a quote opens, and those of one character are
logged together.  All these events come from places in the source, one behind the other, and
after them comes one last event, with the length of the source and the number of tokens.  The
steps of a scanner over a text log all but that one. -/
theorem log_agrees_with_tokens (source : Bytes) :
    ((trace source).filter fun event => event.message = "unknown token").map Event.fields =
      ((scan source).filter fun token => token.kind = .unknown).map Token.logged ∧
    ((trace source).filter fun event => event.message = "unknown token") =
      ((scan source).filter fun token => token.kind = .unknown).map
        (fun token => .unknown token.text token.line token.startColumn) ∧
    (∃ changes : List LevelChange,
      ((trace source).filter fun event => event.message = "indentation change") =
        changes.map LevelChange.event ∧
      FollowMarks (scan source) (Scanner.new source).tokenize.indentLevel changes) ∧
    (∃ (tiles : List Tile) (offsets : List Nat),
      tiles.flatMap Tile.bytes = source ∧
      tiles.filterMap Tile.token? =
        ((scan source).filter fun token => !token.kind.isSynthetic) ∧
      (∀ before tile after, tiles = before ++ tile :: after → tile.Fits before after) ∧
      offsets.Pairwise (· < ·) ∧
      (∀ offset, offset ∈ offsets ↔
        ∃ before tile after byte, tiles = before ++ tile :: after ∧
          Tile.Holds before tile offset byte ∧ IsForeignByte byte ∧ ¬ tile.Hides) ∧
      ((trace source).filter fun event => event.message = "dropping unrecognised byte") =
        offsets.map (dropEvent source) ∧
      ∀ earlier char later, source = encoded (earlier ++ char :: later) →
        (∀ index, index < (String.utf8EncodeChar char).length →
          (encoded earlier).length + index ∈ offsets) ∨
        (∀ index, index < (String.utf8EncodeChar char).length →
          (encoded earlier).length + index ∉ offsets)) ∧
    ∃ (events : List Event) (offsets : List Nat),
      trace source = events ++ [.complete source.length (scan source).length] ∧
      (∀ event ∈ events, event.message ≠ "scan complete") ∧
      offsets.Pairwise (· < ·) ∧ List.Forall₂ (Event.StandsAt source) offsets events ∧
      (isUtf8 source = true →
        Scanner.ReachableLogging source events (Scanner.new source).tokenize) := by
  have silent (message : String) (notLast : message ≠ "scan complete") :
      ((trace source).filter fun event => event.message = message) =
        (eventsFrom .start (cut source)).filter fun event => event.message = message := by
    rw [trace_eq_append, List.filter_append]
    simp [Event.message, notLast.symm]
  have atStart : Cursor.start.offset = ([] : Bytes).length := rfl
  have onFirstLine : Cursor.start.line = ([] : Bytes).count lineFeed := rfl
  obtain ⟨offsets, -, ordered, stand⟩ := exists_offsets_eventsFrom onFirstLine source
  have unknown : ((trace source).filter fun event => event.message = "unknown token") =
      ((scan source).filter fun token => token.kind = .unknown).map Token.unknownEvent := by
    rw [silent _ (by decide)]
    exact unknown_eventsFrom .start (cut source)
  refine ⟨?_, unknown,
    ⟨levelChangesFrom .start (cut source), ?_, followMarks_levelChangesFrom source⟩,
    ⟨tilesFrom .start (cut source), Tile.droppedOffsets 0 (tilesFrom .start (cut source)),
      bytesOf_tilesFrom _ source, filterMap_token?_tilesFrom _ source,
      fun before tile after parts => Tile.fits_of_allFit (allFit_tilesFrom .start source) parts,
      Tile.pairwise_droppedOffsets _ _, Tile.mem_droppedOffsets_iff source, ?_, ?_⟩,
    eventsFrom .start (cut source), offsets, trace_eq_append source, fun event member => ?_,
    ordered, stand, Scanner.ReachableLogging.new.tokenize (.new source)⟩
  · rw [unknown]
    exact map_fields_unknownEvent source
  · rw [silent _ (by decide)]
    exact level_eventsFrom .start (cut source)
  · rw [silent _ (by decide)]
    exact drop_eventsFrom atStart onFirstLine source
  · rintro earlier char later rfl
    exact dropped_together earlier later char
  · exact message_ne_of_mem_eventsFrom member

end LayoutLexer
