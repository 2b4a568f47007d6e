import LayoutLexer.Dump
import LayoutLexer.Proofs.Indentation
import Mathlib.Algebra.Ring.Nat

/-!
# Positions are no greater than the source

A source has no more tokens than bytes, also when the level at its end is counted with them,
and no position of a token is greater than the number of bytes.  A single line feed may be
followed by any number of dedents, so the number of tokens is bounded along the way together
with the level: what a dedent adds to the tokens it takes from the level.

Positions are kept in 64-bit words.  Here a scan takes every sum and difference of positions
with a check that the result is a word, and changes the level by one at a time.  On a source
that fits into memory no check breaks it off, and no printed position is too large either.
-/

namespace LayoutLexer

/-! ## Bounds on positions -/

/-- A cursor whose positions are no greater than its offset.  A level takes up as many bytes
as it has columns. -/
structure Cursor.InBounds (cursor : Cursor) : Prop where
  line_le : cursor.line ≤ cursor.offset
  column_le : cursor.column ≤ cursor.offset
  level_le : tabSize * cursor.level ≤ cursor.offset

structure Token.InBounds (token : Token) (bound : Nat) : Prop where
  line_le : token.line ≤ bound
  startColumn_le : token.startColumn ≤ bound
  endColumn_le : token.endColumn ≤ bound

theorem Token.InBounds.mono {token : Token} {bound larger : Nat} (inBounds : token.InBounds bound)
    (le : bound ≤ larger) : token.InBounds larger where
  line_le := Nat.le_trans inBounds.line_le le
  startColumn_le := Nat.le_trans inBounds.startColumn_le le
  endColumn_le := Nat.le_trans inBounds.endColumn_le le

/-- The columns of a level all lie on the line feed and the margin in front of it. -/
theorem tabSize_mul_marginLevel_le (width : Nat) : tabSize * marginLevel width ≤ width + 1 :=
  Nat.mul_div_le (width + 1) tabSize

theorem level_advance_lineBreak (cursor : Cursor) (margin : Bytes) :
    (cursor.advance (.lineBreak margin)).level = marginLevel margin.length := by
  rw [Cursor.advance, Nat.add_sub_cancel_left]

theorem Cursor.InBounds.start : Cursor.start.InBounds where
  line_le := Nat.le_refl _
  column_le := Nat.le_refl _
  level_le := Nat.le_refl _

variable {cursor : Cursor}

theorem Cursor.InBounds.advance (inBounds : cursor.InBounds) (piece : Piece) :
    (cursor.advance piece).InBounds := by
  obtain ⟨line, column, level⟩ := inBounds
  cases piece with
  | lineBreak margin =>
      have bound := tabSize_mul_marginLevel_le margin.length
      constructor
      · rw [Cursor.offset_advance]
        simp only [Cursor.advance, Piece.bytes, List.length_cons]
        omega
      · rw [Cursor.offset_advance]
        simp only [Cursor.advance, Piece.bytes, List.length_cons]
        omega
      · rw [Cursor.offset_advance, level_advance_lineBreak, Piece.bytes, List.length_cons]
        omega
  | _ => constructor <;> simp only [Cursor.advance] <;> omega

/-- Marks of layout cover columns of the level of the line or of the line before. -/
theorem Token.InBounds.of_mem_layoutTokens {line before after bound : Nat} {token : Token}
    (member : token ∈ layoutTokens line before after) (lineBound : line ≤ bound)
    (beforeBound : tabSize * before ≤ bound) (afterBound : tabSize * after ≤ bound) :
    token.InBounds bound := by
  have covered {level other : Nat} (deeper : level - other ≠ 0)
      (levelBound : tabSize * level ≤ bound) : tabSize ≤ bound := by
    have positive : 1 ≤ level := by omega
    exact Nat.le_trans (Nat.le_mul_of_pos_right tabSize positive) levelBound
  simp only [layoutTokens, List.mem_append, List.mem_replicate] at member
  rcases member with ⟨deeper, rfl⟩ | ⟨shallower, rfl⟩
  · exact ⟨lineBound, Nat.zero_le _, covered deeper afterBound⟩
  · exact ⟨lineBound, Nat.zero_le _, covered shallower beforeBound⟩

/-- The tokens of a piece end no later than the piece. -/
theorem Cursor.InBounds.token_inBounds (inBounds : cursor.InBounds) {piece : Piece}
    {token : Token} (member : token ∈ PlacedPiece.tokens { cursor, piece }) :
    token.InBounds (cursor.advance piece).offset := by
  have next := inBounds.advance piece
  obtain ⟨line, column, level⟩ := inBounds
  have offset := Cursor.offset_advance cursor piece
  cases piece with
  | lexeme kind text bytes =>
      obtain rfl := List.mem_singleton.mp member
      rw [offset, Piece.bytes]
      exact ⟨Nat.le_add_right_of_le line, Nat.le_add_right_of_le column,
        Nat.add_le_add_right column _⟩
  | lineBreak margin =>
      rw [Piece.bytes, List.length_cons] at offset
      rcases List.mem_cons.mp member with rfl | isMark
      · constructor <;> dsimp only <;> omega
      · have levelBound : tabSize * cursor.level ≤ (cursor.advance (.lineBreak margin)).offset := by
          omega
        exact .of_mem_layoutTokens isMark next.line_le levelBound next.level_le
  | comment bytes => exact absurd member List.not_mem_nil
  | blank byte => exact absurd member List.not_mem_nil
  | dropped byte => exact absurd member List.not_mem_nil

theorem Cursor.InBounds.of_mem_tokensFrom (inBounds : cursor.InBounds) {pieces : List Piece}
    {token : Token} (member : token ∈ tokensFrom cursor pieces) :
    token.InBounds (cursor.advanceAll pieces).offset := by
  induction pieces generalizing cursor with
  | nil => exact absurd member List.not_mem_nil
  | cons piece pieces ih =>
      rw [tokensFrom_cons, List.mem_append] at member
      rcases member with here | later
      · refine (inBounds.token_inBounds here).mono ?_
        rw [Cursor.advanceAll_cons, Cursor.offset_advanceAll]
        exact Nat.le_add_right _ _
      · exact ih (inBounds.advance piece) later

theorem inBounds_of_mem_scan {source : Bytes} {token : Token} (member : token ∈ scan source) :
    token.InBounds source.length := by
  have inBounds := Cursor.InBounds.start.of_mem_tokensFrom member
  rwa [Cursor.offset_advanceAll, flatMap_bytes_cut, show Cursor.start.offset = 0 from rfl,
    Nat.zero_add] at inBounds

/-! ## The number of tokens -/

theorem length_layoutTokens (line before after : Nat) :
    (layoutTokens line before after).length = (after - before) + (before - after) := by
  simp [layoutTokens]

/-- A piece pays for its tokens and for what it adds to the level. -/
theorem length_tokens_add_level_le {piece : Piece} (notEmpty : piece.bytes ≠ [])
    (cursor : Cursor) :
    (PlacedPiece.tokens { cursor, piece }).length + (cursor.advance piece).level ≤
      cursor.level + piece.bytes.length := by
  have positive := List.length_pos_iff.mpr notEmpty
  cases piece with
  | lexeme kind text bytes =>
      change 1 + cursor.level ≤ cursor.level + bytes.length
      change 0 < bytes.length at positive
      omega
  | lineBreak margin =>
      have level := level_advance_lineBreak cursor margin
      have bound := tabSize_mul_marginLevel_le margin.length
      let next := cursor.advance (.lineBreak margin)
      change (layoutTokens next.line cursor.level next.level).length + 1 + next.level ≤
        cursor.level + (margin.length + 1)
      rw [length_layoutTokens, show next.level = marginLevel margin.length from level]
      rw [tabSize] at bound
      -- An indent counts twice, as a token and in the level, and has at least three blanks.
      omega
  | comment bytes => exact Nat.zero_add _ ▸ Nat.le_add_right _ _
  | blank byte => exact Nat.zero_add _ ▸ Nat.le_add_right _ _
  | dropped byte => exact Nat.zero_add _ ▸ Nat.le_add_right _ _

theorem length_tokensFrom_add_level_le (cursor : Cursor) (source : Bytes) :
    (tokensFrom cursor (cut source)).length + (cursor.advanceAll (cut source)).level ≤
      cursor.level + source.length := by
  induction source using cut_induction generalizing cursor with
  | nil => simp
  | cons byte rest after split ih =>
      have here := length_tokens_add_level_le (Piece.first_bytes_ne_nil byte rest) cursor
      have behind := ih (cursor.advance (Piece.first byte rest))
      have length := congrArg List.length split
      rw [List.length_append] at length
      rw [cut_cons split, tokensFrom_cons, Cursor.advanceAll_cons, List.length_append]
      omega

/-! ## Scanning in words -/

/-- Why arithmetic on positions breaks off. -/
inductive WordFault where
  | overflow (left right : Nat)
  | underflow (left right : Nat)
  deriving DecidableEq, Repr

def wordAdd (left right : Nat) : Except WordFault Nat :=
  if left + right < UInt64.size then .ok (left + right) else .error (.overflow left right)

def wordSub (left right : Nat) : Except WordFault Nat :=
  if right ≤ left then .ok (left - right) else .error (.underflow left right)

/-- Change the level of a line as often as is said, with a mark of layout each time.  It
answers with the marks and the level come to. -/
def changeLevel (change : Nat → Except WordFault Nat) (mark : Token) (level : Nat) :
    (count : Nat) → Except WordFault (List Token × Nat)
  | 0 => .ok ([], level)
  | count + 1 => do
    let next ← change level
    let (marks, last) ← changeLevel change mark next count
    return (mark :: marks, last)

/-- Go up to a level or down to it. -/
def reachLevel (line level target : Nat) : Except WordFault (List Token × Nat) := do
  let (indents, raised) ←
    changeLevel (wordAdd · 1) (layoutMark .indent line) level (target - level)
  let (dedents, reached) ←
    changeLevel (wordSub · 1) (layoutMark .dedent line) raised (raised - target)
  return (indents ++ dedents, reached)

/-- The tokens of a piece and the place behind it, in words. -/
def Cursor.wordStep (cursor : Cursor) : Piece → Except WordFault (List Token × Cursor)
  | .lexeme kind text bytes => do
    let offset ← wordAdd cursor.offset bytes.length
    let column ← wordAdd cursor.column bytes.length
    let token : Token :=
      { kind, text, line := cursor.line, startColumn := cursor.column, endColumn := column }
    return ([token], { cursor with offset, column })
  | .comment bytes => do
    let offset ← wordAdd cursor.offset bytes.length
    let column ← wordAdd cursor.column bytes.length
    return ([], { cursor with offset, column })
  | .blank _ => do
    let offset ← wordAdd cursor.offset 1
    let column ← wordAdd cursor.column 1
    return ([], { cursor with offset, column })
  | .dropped _ => do
    let offset ← wordAdd cursor.offset 1
    return ([], { cursor with offset })
  | .lineBreak margin => do
    let endColumn ← wordAdd cursor.column 1
    let token : Token :=
      { kind := .newline, text := none, line := cursor.line, startColumn := cursor.column,
        endColumn }
    let lineStart ← wordAdd cursor.offset 1
    let line ← wordAdd cursor.line 1
    let offset ← wordAdd lineStart margin.length
    let column ← wordAdd 0 margin.length
    let width ← wordSub offset lineStart
    let wider ← wordAdd width 1
    let (marks, level) ← reachLevel line cursor.level (wider / tabSize)
    return (token :: marks, { offset, line, lineStart, column, level })

def Cursor.wordSteps (cursor : Cursor) : List Piece → Except WordFault (List Token × Cursor)
  | [] => .ok ([], cursor)
  | piece :: pieces => do
    let (tokens, next) ← cursor.wordStep piece
    let (later, last) ← next.wordSteps pieces
    return (tokens ++ later, last)

/-- Scan a source in words, with the place come to in the end. -/
def wordScan (source : Bytes) : Except WordFault (List Token × Cursor) :=
  Cursor.start.wordSteps (cut source)

theorem wordAdd_eq {left right : Nat} (fits : left + right < UInt64.size) :
    wordAdd left right = .ok (left + right) :=
  if_pos fits

theorem wordSub_eq {left right : Nat} (fits : right ≤ left) :
    wordSub left right = .ok (left - right) :=
  if_pos fits

theorem changeLevel_eq {change : Nat → Except WordFault Nat} (level : Nat → Nat) {count : Nat}
    (changes : ∀ index < count, change (level index) = .ok (level (index + 1))) (mark : Token) :
    changeLevel change mark (level 0) count = .ok (List.replicate count mark, level count) := by
  induction count generalizing level with
  | zero => rfl
  | succ count ih =>
      have later := ih (fun index => level (index + 1)) fun index bound =>
        changes (index + 1) (Nat.succ_lt_succ bound)
      simp only [changeLevel, changes 0 (Nat.succ_pos count), bind, Except.bind, later, pure,
        Except.pure, List.replicate_succ]

theorem raiseLevel_eq {level count : Nat} (fits : level + count < UInt64.size) (mark : Token) :
    changeLevel (wordAdd · 1) mark level count =
      .ok (List.replicate count mark, level + count) :=
  changeLevel_eq (fun index => level + index)
    (fun index bound => wordAdd_eq (by omega)) mark

theorem lowerLevel_eq {level count : Nat} (fits : count ≤ level) (mark : Token) :
    changeLevel (wordSub · 1) mark level count =
      .ok (List.replicate count mark, level - count) :=
  changeLevel_eq (fun index => level - index)
    (fun index bound => by rw [wordSub_eq (by omega), Nat.sub_sub]) mark

theorem reachLevel_eq {level target : Nat} (fits : level < UInt64.size)
    (targetFits : target < UInt64.size) (line : Nat) :
    reachLevel line level target = .ok (layoutTokens line level target, target) := by
  have raised := raiseLevel_eq (show level + (target - level) < UInt64.size by omega)
    (layoutMark .indent line)
  have lowered := lowerLevel_eq (Nat.sub_le (level + (target - level)) target)
    (layoutMark .dedent line)
  have surplus : level + (target - level) - target = level - target := by omega
  have reached : level + (target - level) - (level - target) = target := by omega
  rw [surplus, reached] at lowered
  simp only [reachLevel, raised, surplus, lowered, bind, Except.bind]
  rfl

/-- In words a piece has the tokens that it has, and leads where it leads. -/
theorem Cursor.InBounds.wordStep_eq (inBounds : cursor.InBounds) {piece : Piece}
    (room : cursor.offset + piece.bytes.length < UInt64.size) :
    cursor.wordStep piece = .ok (PlacedPiece.tokens { cursor, piece }, cursor.advance piece) := by
  obtain ⟨line, column, level⟩ := inBounds
  cases piece with
  | lexeme kind text bytes =>
      rw [Piece.bytes] at room
      have columnFits := wordAdd_eq (show cursor.column + bytes.length < UInt64.size by omega)
      simp only [wordStep, wordAdd_eq room, columnFits, bind, Except.bind]
      rfl
  | comment bytes =>
      rw [Piece.bytes] at room
      have columnFits := wordAdd_eq (show cursor.column + bytes.length < UInt64.size by omega)
      simp only [wordStep, wordAdd_eq room, columnFits, bind, Except.bind]
      rfl
  | blank byte =>
      change cursor.offset + 1 < UInt64.size at room
      have columnFits := wordAdd_eq (show cursor.column + 1 < UInt64.size by omega)
      simp only [wordStep, wordAdd_eq room, columnFits, bind, Except.bind]
      rfl
  | dropped byte =>
      change cursor.offset + 1 < UInt64.size at room
      simp only [wordStep, wordAdd_eq room, bind, Except.bind]
      rfl
  | lineBreak margin =>
      rw [Piece.bytes, List.length_cons] at room
      rw [tabSize] at level
      have endFits := wordAdd_eq (show cursor.column + 1 < UInt64.size by omega)
      have startFits := wordAdd_eq (show cursor.offset + 1 < UInt64.size by omega)
      have lineFits := wordAdd_eq (show cursor.line + 1 < UInt64.size by omega)
      have offsetFits :=
        wordAdd_eq (show cursor.offset + 1 + margin.length < UInt64.size by omega)
      have columnFits := wordAdd_eq (show 0 + margin.length < UInt64.size by omega)
      have widthFits := wordSub_eq (Nat.le_add_right (cursor.offset + 1) margin.length)
      have widerFits := wordAdd_eq (show margin.length + 1 < UInt64.size by omega)
      have reached := reachLevel_eq (show cursor.level < UInt64.size by omega)
        (show (margin.length + 1) / tabSize < UInt64.size by rw [tabSize]; omega)
        (cursor.line + 1)
      simp only [wordStep, endFits, startFits, lineFits, offsetFits, columnFits, widthFits,
        Nat.add_sub_cancel_left, widerFits, reached, bind, Except.bind, Nat.zero_add]
      rw [← marginLevel, ← level_advance_lineBreak cursor margin]
      rfl

theorem Cursor.InBounds.wordSteps_eq (inBounds : cursor.InBounds) {source : Bytes}
    (room : cursor.offset + source.length < UInt64.size) :
    cursor.wordSteps (cut source) =
      .ok (tokensFrom cursor (cut source), cursor.advanceAll (cut source)) := by
  induction source using cut_induction generalizing cursor with
  | nil => simp [wordSteps]
  | cons byte rest after split ih =>
      have length := congrArg List.length split
      rw [List.length_append] at length
      have roomHere : cursor.offset + (Piece.first byte rest).bytes.length < UInt64.size := by
        omega
      have roomBehind : (cursor.advance (Piece.first byte rest)).offset + after.length <
          UInt64.size := by
        rw [Cursor.offset_advance]
        omega
      have here := inBounds.wordStep_eq roomHere
      have behind := ih (inBounds.advance _) roomBehind
      rw [cut_cons split, tokensFrom_cons, Cursor.advanceAll_cons]
      simp only [wordSteps, here, behind, bind, Except.bind]
      rfl

/-! ## Positions in print -/

theorem Token.InBounds.isPrintable {token : Token} {bound : Nat} (inBounds : token.InBounds bound)
    (room : bound + 1 < UInt64.size) : token.IsPrintable :=
  ⟨Nat.lt_of_le_of_lt (Nat.succ_le_succ inBounds.line_le) room,
    Nat.lt_of_le_of_lt (Nat.succ_le_succ inBounds.startColumn_le) room,
    Nat.lt_of_le_of_lt (Nat.succ_le_succ inBounds.endColumn_le) room⟩

/-- There are no more tokens and levels together than bytes in a source, and no position of
a token is greater than their number.  So a source with less than `2 ^ 63` bytes is scanned in
64-bit words with every sum and every difference, the levels come to are never below zero,
and all its tokens can be printed, in a dump and in diagnostics. -/
theorem positions_within_source (source : Bytes) :
    (scan source).length + (Scanner.new source).tokenize.indentLevel ≤ source.length ∧
    (∀ token ∈ scan source, token.line ≤ source.length ∧ token.startColumn ≤ source.length ∧
      token.endColumn ≤ source.length) ∧
    (source.length < 2 ^ 63 →
      wordScan source = .ok (scan source, (Scanner.new source).tokenize.cursor) ∧
      checkedDump (scan source) = .ok (dump (scan source)) ∧
      ∀ token ∈ scan source, token.checkedRender = .ok token.render ∧
        ∀ file, checkedDisplayUnknown token source file =
          .ok (displayUnknown token source file)) := by
  refine ⟨?_, fun token member => ?_, fun short => ?_⟩
  · have bound := length_tokensFrom_add_level_le .start source
    rwa [show Cursor.start.level = 0 from rfl, Nat.zero_add] at bound
  · have inBounds := inBounds_of_mem_scan member
    exact ⟨inBounds.line_le, inBounds.startColumn_le, inBounds.endColumn_le⟩
  · have room : source.length + 1 < UInt64.size := by
      rw [UInt64.size]
      omega
    have printable : ∀ token ∈ scan source, token.IsPrintable := fun token member =>
      (inBounds_of_mem_scan member).isPrintable room
    refine ⟨Cursor.InBounds.start.wordSteps_eq ?_, if_pos printable, fun token member => ?_⟩
    · rw [show Cursor.start.offset = 0 from rfl, Nat.zero_add]
      exact Nat.lt_of_succ_lt room
    · exact ⟨if_pos (printable token member), fun file => if_pos (printable token member).1⟩

/-- A source that goes up to the second level and back at once, with an unknown token on its
deepest line. -/
theorem positions_within_source_dedents :
    let source := utf8 "a\n\t   b\n       $\nc"
    let token : Token :=
      { kind := .unknown, text := some (utf8 "$"), line := 2, startColumn := 7, endColumn := 8 }
    (source.length < 2 ^ 63 ∧ token ∈ scan source) ∧
      wordScan source = .ok (scan source, (Scanner.new source).tokenize.cursor) ∧
      checkedDump (scan source) = .ok (dump (scan source)) ∧
      token.checkedRender = .ok token.render ∧
        checkedDisplayUnknown token source (utf8 "f") =
          .ok (displayUnknown token source (utf8 "f")) := by
  intro source token
  have short : source.length < 2 ^ 63 := by decide +kernel
  have member : token ∈ scan source := by decide +kernel
  obtain ⟨-, -, inWords⟩ := positions_within_source source
  obtain ⟨scanned, dumped, printed⟩ := inWords short
  obtain ⟨rendered, displayed⟩ := printed token member
  exact ⟨⟨short, member⟩, scanned, dumped, rendered, displayed _⟩

end LayoutLexer
