import LayoutLexer.Event
import LayoutLexer.Scanner
import LayoutLexer.Proofs.CharacterBoundary

/-!
# Scanning with checks

Here a scanner goes from byte to byte over its source and keeps its own account
of offset, line, column and level.  Whatever could go wrong on the way is checked
and breaks the step off: a slice that tears a character apart or reaches beyond
the text, a search for a symbol that has given back all its bytes, a margin
measured away from the beginning of its line, and a token whose text does not
fit its kind.  What a step meets is noted in a log before the step goes on.

On a text none of the checks fails.  A step then does what taking the next piece
does and notes what the piece is logged with, and steps lead from a new scanner
to the scanner that has tokenized.
-/

namespace LayoutLexer

/-- Why a step of a scanner breaks off. -/
inductive ScanFault where
  /-- A slice with these ends is not made of whole characters of the text. -/
  | tornSlice (start stop : Nat)
  /-- No byte is left among which a symbol could be found. -/
  | emptySearch
  /-- A margin is measured at this column, which should be zero. -/
  | lateMargin (column : Nat)
  /-- A margin begins at an offset that lies behind the cursor. -/
  | marginAhead (lineStart : Nat)
  | malformedToken (fault : TokenFault)
  deriving DecidableEq, Repr

/-- An offset between two characters of a text, or at one of its ends. -/
def IsBoundary (text : Bytes) (offset : Nat) : Prop :=
  offset ≤ text.length ∧ isUtf8 (text.take offset) = true

instance (text : Bytes) (offset : Nat) : Decidable (IsBoundary text offset) :=
  inferInstanceAs (Decidable (_ ∧ _))

/-- The bytes between two offsets, both of which have to be boundaries. -/
def slice (text : Bytes) (start stop : Nat) : Except ScanFault Bytes :=
  if start ≤ stop ∧ IsBoundary text start ∧ IsBoundary text stop then
    .ok ((text.take stop).drop start)
  else
    .error (.tornSlice start stop)

def checkedToken (kind : Kind) (text : Option Bytes) (line startColumn endColumn : Nat) :
    Except ScanFault Token :=
  (Token.make kind text line startColumn endColumn).mapError .malformedToken

/-- The search for a symbol among the first `length` bytes of a run, which gives
back one byte at a time.  It answers with the symbol, if there is one, and with
the number of bytes kept, which is never less than one. -/
def searchSymbol (run : Bytes) : (length : Nat) → Except ScanFault (Option Symbol × Nat)
  | 0 => .error .emptySearch
  | length + 1 => do
    let kept ← slice run 0 (length + 1)
    match Symbol.ofBytes? kept with
    | some sign => return (some sign, length + 1)
    | none => if length = 0 then return (none, 1) else searchSymbol run length

def check (condition : Prop) [Decidable condition] (fault : ScanFault) :
    Except ScanFault Unit :=
  if condition then .ok () else .error fault

/-- Scanning keeps a log, and it may break off. -/
abbrev Scanning := StateT (List Event) (Except ScanFault)

def note (event : Event) : Scanning Unit := fun log =>
  .ok ((), log ++ [event])

def noteIf (condition : Prop) [Decidable condition] (event : Event) : Scanning Unit :=
  if condition then note event else pure ()

/-- What comes of scanning, without the log. -/
def unlogged {α : Type} (action : Scanning α) : Except ScanFault α :=
  (action []).map Prod.fst

namespace Scanner

def nextByte? (scanner : Scanner) : Option UInt8 :=
  scanner.source[scanner.cursor.offset]?

def skip (scanner : Scanner) (count : Nat) : Scanner :=
  { scanner with cursor.offset := scanner.cursor.offset + count }

/-- Take up the bytes from the cursor on as long as they are accepted. -/
def eatWhile (scanner : Scanner) (accepts : UInt8 → Bool) :
    Except ScanFault (Bytes × Scanner) := do
  let start := scanner.cursor.offset
  let count := ((scanner.source.drop start).takeWhile accepts).length
  let eaten ← slice scanner.source start (start + count)
  return (eaten, scanner.skip count)

/-- Add a token at the current column and move the column past it. -/
def pushLexeme (scanner : Scanner) (kind : Kind) (text : Option Bytes) (width : Nat) :
    Scanning Scanner := do
  let cursor := scanner.cursor
  noteIf (kind = .unknown) (.unknown text cursor.line cursor.column)
  let token ← checkedToken kind text cursor.line cursor.column (cursor.column + width)
  return { scanner with
    tokens := scanner.tokens ++ [token]
    cursor.column := cursor.column + width }

def pushMarks (scanner : Scanner) (kind : Kind) : (count : Nat) → Except ScanFault Scanner
  | 0 => .ok scanner
  | count + 1 => do
    let token ← checkedToken kind none scanner.cursor.line 0 tabSize
    pushMarks { scanner with tokens := scanner.tokens ++ [token] } kind count

/-- Measure a margin and mark what it changes. -/
def tracedMargin (scanner : Scanner) : Scanning Scanner := do
  check (scanner.cursor.column = 0) (.lateMargin scanner.cursor.column)
  let (blanks, behind) ← scanner.eatWhile isMargin
  let cursor := behind.cursor
  check (cursor.lineStart ≤ cursor.offset) (.marginAhead cursor.lineStart)
  let level := marginLevel (cursor.offset - cursor.lineStart)
  let atText := { behind with cursor.column := cursor.column + blanks.length }
  noteIf (level ≠ cursor.level) (.levelChange cursor.level level cursor.line)
  let indented ← atText.pushMarks .indent (level - cursor.level)
  let dedented ← indented.pushMarks .dedent (cursor.level - level)
  return { dedented with cursor.level := level }

def scanMargin (scanner : Scanner) : Except ScanFault Scanner :=
  unlogged scanner.tracedMargin

def scanLineFeed (scanner : Scanner) : Scanning Scanner := do
  let cursor := scanner.cursor
  let token ← checkedToken .newline none cursor.line cursor.column (cursor.column + 1)
  tracedMargin { scanner with
    tokens := scanner.tokens ++ [token]
    cursor :=
      { offset := cursor.offset + 1
        line := cursor.line + 1
        lineStart := cursor.offset + 1
        column := 0
        level := cursor.level } }

def scanNumber (scanner : Scanner) : Scanning Scanner := do
  let (text, behind) ← scanner.eatWhile isNumeric
  let periods := text.count period
  let plain := text.all fun byte => isDigit byte || byte == period
  let kind :=
    if periods > 1 || !plain then .unknown
    else if periods = 1 then .float
    else .integer
  behind.pushLexeme kind (some text) text.length

def scanWord (scanner : Scanner) : Scanning Scanner := do
  let (text, behind) ← scanner.eatWhile isWord
  match Keyword.ofBytes? text with
  | some word => behind.pushLexeme (.keyword word) none text.length
  | none => behind.pushLexeme .identifier (some text) text.length

/-- Add a token whose text goes from the cursor to where another scanner over the
same source has come. -/
def pushSlice (scanner : Scanner) (kind : Kind) (behind : Scanner) :
    Scanning Scanner := do
  let text ← slice scanner.source scanner.cursor.offset behind.cursor.offset
  behind.pushLexeme kind (some text) text.length

def scanString (scanner : Scanner) (quote : UInt8) : Scanning Scanner := do
  let (_, behind) ← (scanner.skip 1).eatWhile (Piece.isInside quote)
  if behind.nextByte? = some quote then
    scanner.pushSlice .string (behind.skip 1)
  else
    scanner.pushSlice .unknown behind

def scanComment (scanner : Scanner) : Except ScanFault Scanner := do
  let (comment, behind) ← scanner.eatWhile fun byte => byte != lineFeed
  return { behind with cursor.column := behind.cursor.column + comment.length }

/-- Take up a whole run of punctuation and go back to where its first symbol ends. -/
def scanOperator (scanner : Scanner) : Scanning Scanner := do
  let (run, _) ← scanner.eatWhile isPunctuation
  let (found, length) ← searchSymbol run run.length
  let behind := scanner.skip length
  match found with
  | some sign => behind.pushLexeme (.symbol sign) none length
  | none => do
    let text ← slice run 0 length
    behind.pushLexeme .unknown (some text) length

/-- One step, which the byte at the cursor settles. -/
def tracedStep (scanner : Scanner) (byte : UInt8) : Scanning Scanner :=
  match ByteClass.of byte with
  | .lineFeed => scanner.scanLineFeed
  | .blank => pure { scanner.skip 1 with cursor.column := scanner.cursor.column + 1 }
  | .digit => scanner.scanNumber
  | .letter => scanner.scanWord
  | .quote => scanner.scanString byte
  | .hash => scanner.scanComment
  | .punctuation => scanner.scanOperator
  | .foreign => do
    note (.dropped byte scanner.cursor.line)
    return scanner.skip 1

def step (scanner : Scanner) (byte : UInt8) : Except ScanFault Scanner :=
  unlogged (scanner.tracedStep byte)

/-- The scanners that steps lead to from a new scanner over a source. -/
inductive Reachable (source : Bytes) : Scanner → Prop
  | new : Reachable source (.new source)
  | step {scanner next : Scanner} {byte : UInt8} : Reachable source scanner →
      scanner.nextByte? = some byte → scanner.step byte = .ok next → Reachable source next

/-- The scanners that steps lead to, with the log that the steps have kept. -/
inductive ReachableLogging (source : Bytes) : List Event → Scanner → Prop
  | new : ReachableLogging source [] (.new source)
  | step {log longer : List Event} {scanner next : Scanner} {byte : UInt8} :
      ReachableLogging source log scanner → scanner.nextByte? = some byte →
      scanner.tracedStep byte log = .ok (next, longer) → ReachableLogging source longer next

/-! ## What the checks let through -/

def consume (scanner : Scanner) (piece : Piece) : Scanner :=
  { scanner with
    cursor := scanner.cursor.advance piece
    tokens := scanner.tokens ++ PlacedPiece.tokens { cursor := scanner.cursor, piece } }

end Scanner

/-- Scanning goes through with a value, and adds events to the log. -/
def Yields {α : Type} (action : Scanning α) (value : α) (events : List Event) : Prop :=
  ∀ log, action log = .ok (value, log ++ events)

namespace Yields

variable {α β : Type} {value : α} {result : β} {events more : List Event}

theorem pure (value : α) : Yields (pure value) value [] := fun log => by
  rw [List.append_nil]
  rfl

theorem bind {action : Scanning α} {goOn : α → Scanning β} (first : Yields action value events)
    (second : Yields (goOn value) result more) :
    Yields (action >>= goOn) result (events ++ more) := by
  intro log
  change (action log >>= fun (value, longer) => goOn value longer) = _
  rw [first log, ← List.append_assoc]
  exact second (log ++ events)

theorem bindSilent {action : Scanning α} {goOn : α → Scanning β}
    (first : Yields action value events) (second : Yields (goOn value) result []) :
    Yields (action >>= goOn) result events := by
  rw [← List.append_nil events]
  exact first.bind second

/-- What is only checked leaves no trace in the log. -/
theorem ofChecked {checked : Except ScanFault α} {goOn : α → Scanning β}
    (goesThrough : checked = .ok value) (rest : Yields (goOn value) result events) :
    Yields (liftM checked >>= goOn) result events := by
  subst goesThrough
  exact rest

theorem noteIf (condition : Prop) [Decidable condition] (event : Event) :
    Yields (noteIf condition event) () (if condition then [event] else []) := by
  unfold LayoutLexer.noteIf
  split
  · exact fun _ => rfl
  · exact .pure ()

theorem unlogged_eq {action : Scanning α} (yields : Yields action value events) :
    unlogged action = .ok value := by
  rw [unlogged, yields]
  rfl

end Yields

theorem check_eq {condition : Prop} [Decidable condition] (holds : condition)
    (fault : ScanFault) : check condition fault = .ok () :=
  if_pos holds

theorem isBoundary_append {first : Bytes} (isFirst : isUtf8 first = true) (second : Bytes) :
    IsBoundary (first ++ second) first.length := by
  refine ⟨by simp, ?_⟩
  rwa [List.take_left]

theorem slice_eq {first second : Bytes} (isFirst : isUtf8 first = true)
    (isSecond : isUtf8 second = true) (third : Bytes) :
    slice (first ++ (second ++ third)) first.length (first.length + second.length) =
      .ok second := by
  have begins : IsBoundary (first ++ (second ++ third)) first.length :=
    isBoundary_append isFirst _
  have ends : IsBoundary (first ++ second ++ third) (first ++ second).length :=
    isBoundary_append (isUtf8_append isFirst isSecond) _
  rw [List.append_assoc, List.length_append] at ends
  rw [slice, if_pos ⟨Nat.le_add_right _ _, begins, ends⟩, ← List.append_assoc,
    ← List.length_append, List.take_left, List.drop_left]

theorem slice_zero_eq {run : Bytes} (areAscii : ∀ byte ∈ run, byte < 128) {length : Nat}
    (bound : length ≤ run.length) : slice run 0 length = .ok (run.take length) := by
  have isTaken : isUtf8 (run.take length) = true :=
    isUtf8_of_ascii fun byte member => areAscii byte (List.mem_of_mem_take member)
  have isBoundary : IsBoundary run length := ⟨bound, isTaken⟩
  rw [slice, if_pos ⟨Nat.zero_le _, ⟨Nat.zero_le _, isUtf8_nil⟩, isBoundary⟩, List.drop_zero]

theorem checkedToken_eq {kind : Kind} {text : Option Bytes}
    (fits : kind.carriesText = text.isSome) (line startColumn endColumn : Nat) :
    checkedToken kind text line startColumn endColumn =
      .ok { kind, text, line, startColumn, endColumn } := by
  rw [checkedToken, Token.make, if_pos fits]
  rfl

/-- In a run of ASCII bytes the search ends with the symbol that leads the run, or
with one byte. -/
theorem searchSymbol_eq {run : Bytes} (areAscii : ∀ byte ∈ run, byte < 128) {length : Nat}
    (bound : length + 1 ≤ run.length) :
    searchSymbol run (length + 1) =
      .ok (match Symbol.backOff? run (length + 1) with
        | some sign => (some sign, sign.bytes.length)
        | none => (none, 1)) := by
  induction length with
  | zero =>
      rw [searchSymbol, slice_zero_eq areAscii bound, Symbol.backOff?]
      cases found : Symbol.ofBytes? (run.take (0 + 1)) with
      | none => simp [bind, Except.bind, found, Symbol.backOff?, pure, Except.pure]
      | some sign =>
          have bytes := Symbol.ofBytes?_eq_some_iff.mp found
          have length := congrArg List.length bytes
          rw [List.length_take_of_le bound] at length
          simp [bind, Except.bind, found, ← length, pure, Except.pure]
  | succ length ih =>
      rw [searchSymbol, slice_zero_eq areAscii bound, Symbol.backOff?]
      cases found : Symbol.ofBytes? (run.take (length + 1 + 1)) with
      | none => simp [bind, Except.bind, found, ih (Nat.le_of_succ_le bound)]
      | some sign =>
          have bytes := Symbol.ofBytes?_eq_some_iff.mp found
          have length := congrArg List.length bytes
          rw [List.length_take_of_le bound] at length
          simp [bind, Except.bind, found, ← length, pure, Except.pure]

namespace Scanner

variable {scanner : Scanner}

theorem yields_pushLexeme {kind : Kind} {text : Option Bytes}
    (fits : kind.carriesText = text.isSome) (width : Nat) :
    Yields (scanner.pushLexeme kind text width)
      { scanner with
        tokens := scanner.tokens ++
          [{ kind
             text
             line := scanner.cursor.line
             startColumn := scanner.cursor.column
             endColumn := scanner.cursor.column + width }]
        cursor.column := scanner.cursor.column + width }
      (if kind = .unknown then [.unknown text scanner.cursor.line scanner.cursor.column]
        else []) := by
  exact (Yields.noteIf _ _).bindSilent (.ofChecked (checkedToken_eq fits _ _ _) (.pure _))

theorem pushMarks_eq (kind : Kind) (isMark : kind.carriesText = false) (count : Nat) :
    scanner.pushMarks kind count =
      .ok { scanner with
        tokens := scanner.tokens ++
          List.replicate count
            { kind
              text := none
              line := scanner.cursor.line
              startColumn := 0
              endColumn := tabSize } } := by
  induction count generalizing scanner with
  | zero => simp [pushMarks]
  | succ count ih =>
      rw [pushMarks, checkedToken_eq isMark]
      change pushMarks _ kind count = _
      rw [ih, List.replicate_succ]
      simp

theorem consume_silent {piece : Piece}
    (silent : PlacedPiece.tokens { cursor := scanner.cursor, piece } = []) :
    scanner.consume piece = { scanner with cursor := scanner.cursor.advance piece } := by
  rw [consume, silent, List.append_nil]

/-- A scanner has whole characters behind it and the given bytes before it. -/
structure StandsBefore (scanner : Scanner) (done rest : Bytes) : Prop where
  split : scanner.source = done ++ rest
  atRest : scanner.cursor.offset = done.length
  isDone : isUtf8 done = true

variable {done rest : Bytes}

/-- Eating goes through where the bytes eaten are whole characters. -/
theorem StandsBefore.eatWhile_eq (stands : scanner.StandsBefore done rest)
    {accepts : UInt8 → Bool} (isRun : isUtf8 (rest.takeWhile accepts) = true) :
    scanner.eatWhile accepts =
      .ok (rest.takeWhile accepts, scanner.skip (rest.takeWhile accepts).length) := by
  obtain ⟨split, atRest, isDone⟩ := stands
  have eaten := slice_eq isDone isRun (rest.dropWhile accepts)
  rw [List.takeWhile_append_dropWhile, ← split] at eaten
  rw [eatWhile]
  simp only [split, atRest, List.drop_left]
  rw [← split, eaten]
  rfl

theorem nextByte?_eq_head? (split : scanner.source = done ++ rest)
    (atRest : scanner.cursor.offset = done.length) : scanner.nextByte? = rest.head? := by
  rw [nextByte?, split, atRest, List.getElem?_append_right (Nat.le_refl _), Nat.sub_self,
    List.head?_eq_getElem?]

/-- Scanning takes a piece, and logs what the piece is logged with. -/
def Takes (scanner : Scanner) (action : Scanning Scanner) (piece : Piece) : Prop :=
  Yields action (scanner.consume piece) (PlacedPiece.events { cursor := scanner.cursor, piece })

/-- Skipping the bytes of a lexeme and adding its token is taking the piece. -/
theorem takes_pushLexeme_skip (scanner : Scanner) {kind : Kind} {text : Option Bytes}
    (fits : kind.carriesText = text.isSome) (bytes : Bytes) :
    scanner.Takes ((scanner.skip bytes.length).pushLexeme kind text bytes.length)
      (.lexeme kind text bytes) := by
  have pushed := @yields_pushLexeme (scanner.skip bytes.length) kind text fits bytes.length
  cases kind <;> exact pushed

variable {byte : UInt8}

theorem StandsBefore.eatWhile_cons_eq (stands : scanner.StandsBefore done (byte :: rest))
    {accepts : UInt8 → Bool} (accepted : accepts byte = true)
    (ascii : ∀ other, accepts other = true → other < 128) :
    scanner.eatWhile accepts =
      .ok (byte :: rest.takeWhile accepts,
        scanner.skip (byte :: rest.takeWhile accepts).length) := by
  have isRun : isUtf8 ((byte :: rest).takeWhile accepts) = true :=
    isUtf8_of_ascii fun other member => ascii other (accepts_of_mem_takeWhile member)
  rw [stands.eatWhile_eq isRun, List.takeWhile_cons_of_pos accepted]

/-- Two tests in a row settle the kind of a number as one test of its bytes does. -/
theorem numberKind_eq_tests (run : Bytes) :
    Piece.numberKind run =
      if run.count period > 1 || !(run.all fun byte => isDigit byte || byte == period) then
        Kind.unknown
      else if run.count period = 1 then .float
      else .integer := by
  unfold Piece.numberKind
  cases run.all fun byte => isDigit byte || byte == period with
  | false => simp
  | true =>
      match run.count period with
      | 0 | 1 | _ + 2 => simp

theorem StandsBefore.takes_scanNumber (stands : scanner.StandsBefore done (byte :: rest))
    (isClass : ByteClass.of byte = .digit) :
    scanner.Takes scanner.scanNumber (Piece.number (byte :: rest.takeWhile isNumeric)) := by
  have accepted : isNumeric byte = true := by simp [isNumeric, isWord, isClass]
  refine .ofChecked (stands.eatWhile_cons_eq accepted lt_of_isNumeric) ?_
  rw [Piece.number_eq]
  generalize byte :: rest.takeWhile isNumeric = run
  have fits : (Piece.numberKind run).carriesText = (some run).isSome := by
    rcases Piece.numberKind_eq run with same | same | same <;> rw [same] <;> rfl
  have pushed := takes_pushLexeme_skip scanner fits run
  rw [numberKind_eq_tests] at pushed ⊢
  exact pushed

theorem StandsBefore.takes_scanWord (stands : scanner.StandsBefore done (byte :: rest))
    (isClass : ByteClass.of byte = .letter) :
    scanner.Takes scanner.scanWord (Piece.word (byte :: rest.takeWhile isWord)) := by
  have accepted : isWord byte = true := by simp [isWord, isClass]
  refine .ofChecked (stands.eatWhile_cons_eq accepted lt_of_isWord) ?_
  rw [Piece.word]
  generalize byte :: rest.takeWhile isWord = run
  dsimp only
  cases Keyword.ofBytes? run with
  | some word => exact takes_pushLexeme_skip scanner rfl run
  | none => exact takes_pushLexeme_skip scanner rfl run

theorem StandsBefore.takes_scanComment (stands : scanner.StandsBefore done (byte :: rest))
    (isText : isUtf8 (byte :: rest) = true) (isClass : ByteClass.of byte = .hash) :
    scanner.Takes scanner.scanComment
      (.comment (byte :: rest.takeWhile fun other => other != lineFeed)) := by
  have notBreak : byte ≠ lineFeed := ne_lineFeed_of_class isClass ByteClass.noConfusion
  have run : (byte :: rest).takeWhile (fun other => other != lineFeed) =
      byte :: rest.takeWhile fun other => other != lineFeed :=
    List.takeWhile_cons_of_pos (by simpa using notBreak)
  have stops : ∀ other : UInt8, (other != lineFeed) = false → other < 128 := by decide +kernel
  have isRun := (isUtf8_takeWhile stops isText).1
  have eaten := stands.eatWhile_eq isRun
  rw [run] at eaten
  rw [Takes, consume_silent rfl, scanComment, eaten]
  exact .pure _

theorem StandsBefore.takes_scanOperator (stands : scanner.StandsBefore done (byte :: rest))
    (isClass : ByteClass.of byte = .punctuation) :
    scanner.Takes scanner.scanOperator (Piece.operator byte rest) := by
  have accepted : isPunctuation byte = true := isPunctuation_of_class isClass
  have areAscii : ∀ other ∈ byte :: rest.takeWhile isPunctuation, other < 128 := by
    intro other member
    rw [← List.takeWhile_cons_of_pos accepted] at member
    exact lt_of_isPunctuation other (accepts_of_mem_takeWhile member)
  have search := searchSymbol_eq areAscii (Nat.le_of_eq List.length_cons.symm)
  refine .ofChecked (stands.eatWhile_cons_eq accepted lt_of_isPunctuation)
    (.ofChecked search ?_)
  rw [Piece.operator, Symbol.leading?, List.length_cons]
  generalize rest.takeWhile isPunctuation = run at areAscii
  cases Symbol.backOff? (byte :: run) (run.length + 1) with
  | some sign =>
      have fits : (Kind.symbol sign).carriesText = (none : Option Bytes).isSome := rfl
      exact takes_pushLexeme_skip scanner fits sign.bytes
  | none =>
      have isSlice : slice (byte :: run) 0 1 = .ok [byte] :=
        slice_zero_eq areAscii (by simp)
      have fits : Kind.unknown.carriesText = (some [byte]).isSome := rfl
      exact .ofChecked isSlice (takes_pushLexeme_skip scanner fits [byte])

theorem skip_skip (first second : Nat) :
    (scanner.skip first).skip second = scanner.skip (first + second) := by
  simp only [skip, Nat.add_assoc]

theorem StandsBefore.skip {taken : Bytes} (stands : scanner.StandsBefore done (taken ++ rest))
    (isTaken : isUtf8 taken = true) :
    (scanner.skip taken.length).StandsBefore (done ++ taken) rest where
  split := by rw [Scanner.skip, stands.split, List.append_assoc]
  atRest := by rw [Scanner.skip, stands.atRest, List.length_append]
  isDone := isUtf8_append stands.isDone isTaken

theorem StandsBefore.takes_pushSlice {bytes : Bytes}
    (stands : scanner.StandsBefore done (bytes ++ rest)) (isBytes : isUtf8 bytes = true)
    {kind : Kind} (fits : kind.carriesText = true) :
    scanner.Takes (scanner.pushSlice kind (scanner.skip bytes.length))
      (.lexeme kind (some bytes) bytes) := by
  have isSlice := slice_eq stands.isDone isBytes rest
  rw [← stands.split, ← stands.atRest] at isSlice
  exact .ofChecked isSlice (takes_pushLexeme_skip scanner fits bytes)

/-- Behind its opening a string is closed by the quote, if that is what comes next. -/
theorem StandsBefore.takes_pushString {opened behind : Bytes} {quote : UInt8}
    (stands : scanner.StandsBefore done (opened ++ behind)) (isOpened : isUtf8 opened = true)
    (isQuote : isUtf8 [quote] = true) :
    scanner.Takes
      (if behind.head? = some quote then
        scanner.pushSlice .string ((scanner.skip opened.length).skip 1)
      else scanner.pushSlice .unknown (scanner.skip opened.length))
      (if behind.head? = some quote then
        .lexeme .string (some (opened ++ [quote])) (opened ++ [quote])
      else .lexeme .unknown (some opened) opened) := by
  split
  · rename_i closed
    obtain ⟨after, rfl⟩ := List.head?_eq_some_iff.mp closed
    have closes : scanner.StandsBefore done (opened ++ [quote] ++ after) := by
      simpa using stands
    have fits : Kind.string.carriesText = true := rfl
    have pushed := closes.takes_pushSlice (isUtf8_append isOpened isQuote) fits
    rwa [List.length_append, ← skip_skip] at pushed
  · exact stands.takes_pushSlice isOpened rfl

theorem StandsBefore.takes_scanString (stands : scanner.StandsBefore done (byte :: rest))
    (isText : isUtf8 (byte :: rest) = true) (isClass : ByteClass.of byte = .quote) :
    scanner.Takes (scanner.scanString byte) (Piece.string byte rest) := by
  have isAscii : byte < 128 := lt_of_class_ne_foreign (isClass ▸ ByteClass.noConfusion)
  have isQuote : isUtf8 [byte] = true := isUtf8_singleton isAscii
  have isRest : isUtf8 rest = true :=
    isUtf8_behind_ascii (fun other member => List.mem_singleton.mp member ▸ isAscii) isText
  have isInside := (isUtf8_takeWhile (fun other => Piece.lt_of_isInside isAscii) isRest).1
  have opened : (scanner.skip 1).StandsBefore (done ++ [byte]) rest := stands.skip isQuote
  have whole : rest.takeWhile (Piece.isInside byte) ++ rest.dropWhile (Piece.isInside byte) =
      rest := List.takeWhile_append_dropWhile
  refine .ofChecked (opened.eatWhile_eq isInside) ?_
  rw [Piece.string_eq_ite]
  generalize rest.takeWhile (Piece.isInside byte) = inside at isInside whole ⊢
  generalize rest.dropWhile (Piece.isInside byte) = behind at whole ⊢
  subst whole
  have atEnd := opened.skip isInside
  have next := nextByte?_eq_head? atEnd.split atEnd.atRest
  have toEnd : (scanner.skip 1).skip inside.length = scanner.skip (byte :: inside).length := by
    rw [skip_skip, List.length_cons, Nat.add_comm]
  dsimp only
  rw [next, toEnd]
  exact stands.takes_pushString (isUtf8_append isQuote isInside) isQuote

theorem yields_tracedMargin (scanner : Scanner) (stands : scanner.StandsBefore done rest)
    (atHead : scanner.cursor.column = 0)
    (isLineStart : scanner.cursor.lineStart = scanner.cursor.offset) :
    let width := (rest.takeWhile isMargin).length
    Yields scanner.tracedMargin
      { scanner with
        cursor :=
          { scanner.cursor with
            offset := scanner.cursor.offset + width
            column := width
            level := marginLevel width }
        tokens := scanner.tokens ++
          layoutTokens scanner.cursor.line scanner.cursor.level (marginLevel width) }
      (if marginLevel width = scanner.cursor.level then []
        else [.levelChange scanner.cursor.level (marginLevel width) scanner.cursor.line]) := by
  have isRun : isUtf8 (rest.takeWhile isMargin) = true :=
    isUtf8_of_ascii fun other member => lt_of_class_ne_foreign
      (class_of_isMargin (accepts_of_mem_takeWhile member) ▸ ByteClass.noConfusion)
  have eaten := stands.eatWhile_eq isRun
  generalize rest.takeWhile isMargin = blanks at eaten
  have behind : scanner.cursor.lineStart ≤ scanner.cursor.offset + blanks.length := by omega
  have width : scanner.cursor.offset + blanks.length - scanner.cursor.lineStart =
      blanks.length := by omega
  refine .ofChecked (check_eq atHead _) (.ofChecked eaten (.ofChecked (check_eq behind _) ?_))
  dsimp only [Scanner.skip]
  rw [width, atHead, Nat.zero_add]
  have noted := Yields.noteIf (marginLevel blanks.length ≠ scanner.cursor.level)
    (.levelChange scanner.cursor.level (marginLevel blanks.length) scanner.cursor.line)
  rw [ite_not] at noted
  refine noted.bindSilent (.ofChecked (pushMarks_eq .indent rfl _)
    (.ofChecked (pushMarks_eq .dedent rfl _) ?_))
  rw [List.append_assoc]
  exact .pure _

theorem StandsBefore.takes_scanLineFeed (stands : scanner.StandsBefore done (lineFeed :: rest)) :
    scanner.Takes scanner.scanLineFeed (.lineBreak (rest.takeWhile isMargin)) := by
  have isBreak : isUtf8 [lineFeed] = true := isUtf8_singleton (by decide)
  obtain ⟨split, atRest, isDone⟩ := stands.skip isBreak
  refine .ofChecked (checkedToken_eq rfl _ _ _) ?_
  have margin := yields_tracedMargin
    { source := scanner.source
      cursor :=
        { offset := scanner.cursor.offset + 1
          line := scanner.cursor.line + 1
          lineStart := scanner.cursor.offset + 1
          column := 0
          level := scanner.cursor.level }
      tokens := scanner.tokens ++
        [{ kind := .newline
           text := none
           line := scanner.cursor.line
           startColumn := scanner.cursor.column
           endColumn := scanner.cursor.column + 1 }] }
    ⟨split, atRest, isDone⟩ rfl rfl
  simpa [Takes, consume, Cursor.advance, PlacedPiece.tokens, PlacedPiece.events,
    PlacedPiece.next] using margin

/-- On a text every step goes through, takes the next piece and logs what it is logged with. -/
theorem takes_tracedStep (isText : isUtf8 scanner.source = true)
    (split : scanner.source = done ++ byte :: rest)
    (atByte : scanner.cursor.offset = done.length) :
    scanner.Takes (scanner.tracedStep byte) (Piece.first byte rest) := by
  by_cases isForeign : ByteClass.of byte = .foreign
  -- The byte may lie inside a character, where no slice could be taken.
  · rw [Takes, tracedStep, Piece.first, isForeign, consume_silent rfl]
    exact fun _ => rfl
  · have isAscii := lt_of_class_ne_foreign isForeign
    obtain ⟨isDone, isRest⟩ := isUtf8_split isAscii (split ▸ isText)
    have isBehind : isUtf8 (byte :: rest) = true :=
      isUtf8_append (isUtf8_singleton isAscii) isRest
    have stands : scanner.StandsBefore done (byte :: rest) := ⟨split, atByte, isDone⟩
    cases isClass : ByteClass.of byte with
    | lineFeed =>
        obtain rfl := eq_lineFeed_of_class isClass
        exact stands.takes_scanLineFeed
    | blank =>
        rw [Takes, tracedStep, Piece.first, isClass, consume_silent rfl]
        exact .pure _
    | digit => rw [tracedStep, Piece.first, isClass]; exact stands.takes_scanNumber isClass
    | letter => rw [tracedStep, Piece.first, isClass]; exact stands.takes_scanWord isClass
    | quote =>
        rw [tracedStep, Piece.first, isClass]
        exact stands.takes_scanString isBehind isClass
    | hash =>
        rw [tracedStep, Piece.first, isClass]
        exact stands.takes_scanComment isBehind isClass
    | punctuation =>
        rw [tracedStep, Piece.first, isClass]
        exact stands.takes_scanOperator isClass
    | foreign => exact absurd isClass isForeign

/-- Without its log, a step on a text takes the next piece. -/
theorem step_eq_consume (isText : isUtf8 scanner.source = true)
    (split : scanner.source = done ++ byte :: rest)
    (atByte : scanner.cursor.offset = done.length) :
    scanner.step byte = .ok (scanner.consume (Piece.first byte rest)) :=
  (takes_tracedStep isText split atByte).unlogged_eq

end Scanner

end LayoutLexer
